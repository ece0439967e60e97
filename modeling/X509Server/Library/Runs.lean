import Mathlib.Tactic.Common

/-!
# Runs of a labelled transition system

`Run step s ls t`: the labels `ls` lead from `s` to `t`.  An invariant that every step
preserves holds in every state of a run (`Run.invariant`), and a run is at the same time a
run of any system with more steps (`Run.mono`).  A system given by a function that may
refuse a label runs by iterating it (`run_iff_foldlM`).

`Logged P log`: each entry of the log, together with the entries in front of it, satisfies
`P`.  That is what can be said about a system that appends to a log as it goes.
-/

set_option autoImplicit false

namespace Runs

variable {σ α : Type}

/-- The labels lead from one state to the other. -/
inductive Run (step : σ → α → σ → Prop) : σ → List α → σ → Prop where
  | nil (s : σ) : Run step s [] s
  | cons {s t u : σ} {a : α} {as : List α} (head : step s a t) (tail : Run step t as u) :
      Run step s (a :: as) u

namespace Run

variable {step step' : σ → α → σ → Prop} {s t u : σ} {a : α} {as bs : List α}

/-- What every step preserves holds at the end of a run. -/
theorem invariant {I : σ → Prop} (hstep : ∀ s a t, I s → step s a t → I t)
    (h : Run step s as t) (hs : I s) : I t := by
  induction h with
  | nil s => exact hs
  | cons head tail ih => exact ih (hstep _ _ _ hs head)

/-- Along a run every step of which decreases a measure, the measure bounds the steps. -/
theorem length_add_le {I : σ → Prop} {μ : σ → ℕ} (hstep : ∀ s a t, I s → step s a t → I t)
    (hdecrease : ∀ s a t, I s → step s a t → μ t < μ s) (h : Run step s as t) (hs : I s) :
    as.length + μ t ≤ μ s := by
  induction h with
  | nil s => exact Nat.le_of_eq (Nat.zero_add _)
  | cons head tail ih =>
    have hfirst := hdecrease _ _ _ hs head
    have hrest := ih (hstep _ _ _ hs head)
    rw [List.length_cons]
    omega

theorem append (h : Run step s as t) (h' : Run step t bs u) : Run step s (as ++ bs) u := by
  induction h with
  | nil s => exact h'
  | cons head tail ih => exact .cons head (ih h')

theorem single (h : step s a t) : Run step s [a] t := .cons h (.nil t)

/-- A run passes through a state between any two parts of its labels. -/
theorem split (h : Run step s (as ++ bs) u) : ∃ t, Run step s as t ∧ Run step t bs u := by
  induction as generalizing s with
  | nil => exact ⟨s, .nil s, h⟩
  | cons a as ih =>
    cases h with
    | cons head tail =>
      obtain ⟨t, hfirst, hsecond⟩ := ih tail
      exact ⟨t, .cons head hfirst, hsecond⟩

/-- A run of a system is a run of a system with more steps. -/
theorem mono (hsub : ∀ s a t, step s a t → step' s a t) (h : Run step s as t) :
    Run step' s as t := by
  induction h with
  | nil s => exact .nil s
  | cons head tail ih => exact .cons (hsub _ _ _ head) ih

end Run

/-- Runs of a system that is given by a function. -/
theorem run_iff_foldlM (f : σ → α → Option σ) (s t : σ) (as : List α) :
    Run (fun s a t => f s a = some t) s as t ↔ as.foldlM f s = some t := by
  induction as generalizing s with
  | nil =>
    constructor
    · rintro ⟨⟩
      rfl
    · intro h
      obtain rfl := Option.some.inj h
      exact .nil s
  | cons a as ih =>
    rw [List.foldlM_cons, Option.bind_eq_bind, Option.bind_eq_some_iff]
    constructor
    · intro h
      cases h with
      | cons head tail => exact ⟨_, head, (ih _).mp tail⟩
    · rintro ⟨s', head, tail⟩
      exact .cons head ((ih s').mpr tail)

/-! ## Logs -/

/-- Every entry of the log satisfies `P`, given what precedes it. -/
def Logged (P : List α → α → Prop) (log : List α) : Prop :=
  ∀ before a after, log = before ++ a :: after → P before a

variable {P : List α → α → Prop} {log : List α}

theorem logged_nil : Logged P ([] : List α) := by
  intro before a after h
  simp at h

theorem Logged.mono {Q : List α → α → Prop} (h : Logged P log)
    (hsub : ∀ before a, P before a → Q before a) : Logged Q log :=
  fun before a after hsplit => hsub before a (h before a after hsplit)

/-- A log grows by entries that satisfy `P` behind it. -/
theorem Logged.append (h : Logged P log) {new : List α}
    (hnew : Logged (fun before a => P (log ++ before) a) new) : Logged P (log ++ new) := by
  intro before a after hsplit
  rcases List.append_eq_append_iff.mp hsplit with ⟨middle, rfl, hmiddle⟩ | ⟨middle, hlog, hrest⟩
  · exact hnew middle a after hmiddle
  · cases middle with
    | nil =>
      rw [List.append_nil] at hlog
      subst hlog
      rw [List.nil_append] at hrest
      have : P (log ++ []) a := hnew [] a after hrest.symm
      rwa [List.append_nil] at this
    | cons b middle =>
      obtain ⟨rfl, rfl⟩ := List.cons.inj hrest
      exact h before a middle hlog

/-- Entries that satisfy `P` wherever they stand. -/
theorem logged_of_forall (h : ∀ before, ∀ a ∈ log, P before a) : Logged P log := by
  rintro before a after rfl
  exact h before a (by simp)

end Runs
