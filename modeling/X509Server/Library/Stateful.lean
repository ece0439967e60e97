import X509Server.Library.Checked

/-!
# Checked computations with a state

A `Task` reads and writes a state and may stop; the state it has left then is not lost, which
is what a program relies on that gives back its resources behind an error.  `Refines` compares
a task with a computation that has no state: both stop for the same reason, or return
together, and what the task returns and leaves is related to what the computation returns.
`Preserves` is about the state only: whichever way the task ends, an invariant still holds.
-/

set_option autoImplicit false

namespace Stateful

open Checked

variable {σ ε φ α β γ δ : Type}

/-- A computation with a state. -/
abbrev Task (σ ε φ α : Type) := ExceptT (Stop ε φ) (StateM σ) α

/-- What a task ends with, and the state it leaves. -/
def Task.exec (p : Task σ ε φ α) (s : σ) : Run ε φ α × σ := (ExceptT.run p).run s

/-- One task behind the other. -/
theorem Task.exec_bind (p : Task σ ε φ α) (f : α → Task σ ε φ β) (s : σ) :
    (p >>= f).exec s = match p.exec s with
      | (.ok a, t) => (f a).exec t
      | (.error stop, t) => (.error stop, t) := by
  unfold Task.exec
  change (match (ExceptT.run p).run s with
    | (x, t) => (ExceptT.bindCont f x).run t) = _
  generalize (ExceptT.run p).run s = r
  obtain ⟨x, t⟩ := r
  cases x <;> rfl

theorem Task.exec_bind_ok {p : Task σ ε φ α} {a : α} {s t : σ} (h : p.exec s = (.ok a, t))
    (f : α → Task σ ε φ β) : (p >>= f).exec s = (f a).exec t := by
  rw [Task.exec_bind, h]

theorem Task.exec_get (f : σ → Task σ ε φ α) (s : σ) : (get >>= f).exec s = (f s).exec s := rfl

theorem Task.exec_lift {q : Run ε φ α} {a : α} (h : q = .ok a) (f : α → Task σ ε φ β) (s : σ) :
    (liftM q >>= f).exec s = (f a).exec s := by
  rw [h]
  rfl

/-- Started in `s`, the task does what the computation does.  If they return, `Q` relates the
value and the state of the task to the value of the computation; if they stop with a code,
`E` holds of the code and the state. -/
def Refines (p : Task σ ε φ α) (s : σ) (q : Run ε φ β) (Q : α → σ → β → Prop)
    (E : ε → σ → Prop) : Prop :=
  match p.exec s, q with
  | (.ok a, t), .ok b => Q a t b
  | (.error (.code c), t), .error (.code c') => c = c' ∧ E c t
  | (.error (.fault f), _), .error (.fault f') => f = f'
  | _, _ => False

section Rules

variable {p : Task σ ε φ α} {q : Run ε φ β} {s : σ} {Q : α → σ → β → Prop} {E : ε → σ → Prop}

theorem refines_pure {a : α} {b : β} (h : Q a s b) :
    Refines (pure a : Task σ ε φ α) s (.ok b) Q E := h

theorem refines_code {c : ε} (h : E c s) :
    Refines (throw (.code c) : Task σ ε φ α) s (.error (.code c) : Run ε φ β) Q E := ⟨rfl, h⟩

theorem refines_fault (f : φ) :
    Refines (throw (.fault f) : Task σ ε φ α) s (.error (.fault f) : Run ε φ β) Q E := rfl

theorem Refines.bind {f : α → Task σ ε φ γ} {g : β → Run ε φ δ} {R : γ → σ → δ → Prop}
    (hp : Refines p s q Q E) (hf : ∀ a t b, Q a t b → Refines (f a) t (g b) R E) :
    Refines (p >>= f) s (q >>= g) R E := by
  unfold Refines at hp ⊢
  rw [Task.exec_bind]
  generalize p.exec s = r at hp
  obtain ⟨x, t⟩ := r
  cases x with
  | ok a =>
    cases q with
    | ok b => exact hf a t b hp
    | error stop => cases stop <;> exact hp.elim
  | error stop =>
    cases q with
    | ok b => cases stop <;> exact hp.elim
    | error stop' => cases stop <;> cases stop' <;> exact hp

/-- A part of the task that the computation does not have. -/
theorem Refines.silent {r : Task σ ε φ γ} {R : γ → σ → PUnit → Prop} {f : γ → Task σ ε φ α}
    (hr : Refines r s (.ok ⟨⟩) R E) (hf : ∀ c t, R c t ⟨⟩ → Refines (f c) t q Q E) :
    Refines (r >>= f) s q Q E :=
  Refines.bind (g := fun _ => q) hr fun c t _ hc => hf c t hc

/-- What the task goes on with where the computation ends. -/
theorem Refines.followed {f : α → Task σ ε φ γ} {R : γ → σ → β → Prop} (hp : Refines p s q Q E)
    (hf : ∀ a t b, Q a t b → Refines (f a) t (.ok b) R E) : Refines (p >>= f) s q R E := by
  have hpure : (q >>= fun b => .ok b) = q := by
    cases q <;> rfl
  rw [← hpure]
  exact hp.bind hf

theorem Refines.mono {Q' : α → σ → β → Prop} {E' : ε → σ → Prop} (hp : Refines p s q Q E)
    (hQ : ∀ a t b, Q a t b → Q' a t b) (hE : ∀ c t, E c t → E' c t) :
    Refines p s q Q' E' := by
  unfold Refines at hp ⊢
  generalize p.exec s = r at hp
  obtain ⟨x, t⟩ := r
  cases x with
  | ok a =>
    cases q with
    | ok b => exact hQ a t b hp
    | error stop => cases stop <;> exact hp.elim
  | error stop =>
    cases q with
    | ok b => cases stop <;> exact hp.elim
    | error stop' =>
      cases stop <;> cases stop'
      · exact ⟨hp.1, hE _ t hp.2⟩
      · exact hp.elim
      · exact hp.elim
      · exact hp

/-- What the computation does may be used behind it. -/
theorem Refines.remember (hp : Refines p s q Q E) :
    Refines p s q (fun a t b => Q a t b ∧ q = .ok b) fun c t => E c t ∧ q = .error (.code c) := by
  unfold Refines at hp ⊢
  generalize p.exec s = r at hp
  obtain ⟨x, t⟩ := r
  cases x with
  | ok a =>
    cases q with
    | ok b => exact ⟨hp, rfl⟩
    | error stop => cases stop <;> exact hp.elim
  | error stop =>
    cases q with
    | ok b => cases stop <;> exact hp.elim
    | error stop' =>
      cases stop <;> cases stop'
      · obtain ⟨rfl, hE⟩ := hp
        exact ⟨rfl, hE, rfl⟩
      · exact hp.elim
      · exact hp.elim
      · exact hp

/-- A task returns where the computation does. -/
theorem Refines.of_ok {b : β} (hp : Refines p s q Q E) (hq : q = .ok b) :
    ∃ a t, p.exec s = (.ok a, t) ∧ Q a t b := by
  subst hq
  unfold Refines at hp
  generalize p.exec s = r at hp
  obtain ⟨x, t⟩ := r
  cases x with
  | ok a => exact ⟨a, t, rfl, hp⟩
  | error stop => cases stop <;> exact hp.elim

/-- A task stops where the computation does. -/
theorem Refines.of_error {stop : Stop ε φ} (hp : Refines p s q Q E) (hq : q = .error stop) :
    ∃ t, p.exec s = (.error stop, t) ∧ ∀ c, stop = .code c → E c t := by
  subst hq
  unfold Refines at hp
  generalize p.exec s = r at hp
  obtain ⟨x, t⟩ := r
  cases x with
  | ok a => cases stop <;> exact hp.elim
  | error stop' =>
    cases stop' with
    | code c =>
      cases stop with
      | code c' =>
        obtain ⟨rfl, hE⟩ := hp
        exact ⟨t, rfl, fun c' hc => Stop.code.inj hc ▸ hE⟩
      | fault f => exact hp.elim
    | fault f =>
      cases stop with
      | code c' => exact hp.elim
      | fault f' =>
        obtain rfl : f = f' := hp
        exact ⟨t, rfl, fun c' hc => nomatch hc⟩

/-- A task may read the state. -/
theorem refines_get {f : σ → Task σ ε φ α} :
    Refines (get >>= f) s q Q E ↔ Refines (f s) s q Q E := Iff.rfl

/-- A task may change the state. -/
theorem refines_modify {g : σ → σ} {f : PUnit → Task σ ε φ α} :
    Refines (modify g >>= f) s q Q E ↔ Refines (f ⟨⟩) (g s) q Q E := Iff.rfl

/-- A computation that is known to return. -/
theorem refines_lift_ok {r : Run ε φ γ} {c : γ} {f : γ → Task σ ε φ α} (h : r = .ok c) :
    Refines (liftM r >>= f) s q Q E ↔ Refines (f c) s q Q E := by
  rw [h]
  exact Iff.rfl

/-- A computation without a state is a task that leaves it. -/
theorem refines_lift {q : Run ε φ α} (hE : ∀ c, q = .error (.code c) → E c s) :
    Refines (liftM q : Task σ ε φ α) s q (fun a t b => s = t ∧ a = b ∧ q = .ok b) E := by
  cases q with
  | ok a => exact ⟨rfl, rfl, rfl⟩
  | error stop =>
    cases stop with
    | code c => exact ⟨rfl, hE c rfl⟩
    | fault f => rfl

end Rules

/-! ## Invariants of the state -/

/-- Started in a state with `I`, the task leaves one with `I`, whichever way it ends. -/
def Preserves (p : Task σ ε φ α) (I : σ → Prop) : Prop := ∀ s, I s → I (p.exec s).2

section Preserves

variable {p : Task σ ε φ α} {I : σ → Prop}

theorem preserves_pure (a : α) : Preserves (pure a : Task σ ε φ α) I := fun _ h => h

theorem preserves_throw (stop : Stop ε φ) : Preserves (throw stop : Task σ ε φ α) I :=
  fun _ h => h

theorem preserves_modify {g : σ → σ} (hg : ∀ s, I s → I (g s)) :
    Preserves (modify g : Task σ ε φ PUnit) I := hg

theorem Preserves.bind {f : α → Task σ ε φ β} (hp : Preserves p I)
    (hf : ∀ a, Preserves (f a) I) : Preserves (p >>= f) I := by
  intro s hs
  rw [Task.exec_bind]
  have ht := hp s hs
  generalize p.exec s = r at ht
  obtain ⟨x, t⟩ := r
  cases x with
  | ok a => exact hf a t ht
  | error stop => exact ht

/-- The state that is read has the invariant. -/
theorem preserves_get {f : σ → Task σ ε φ α} (hf : ∀ s, I s → Preserves (f s) I) :
    Preserves (get >>= f) I := fun s hs => hf s hs s hs

/-- A computation without a state. -/
theorem preserves_lift {q : Run ε φ α} {f : α → Task σ ε φ β}
    (hf : ∀ a, q = .ok a → Preserves (f a) I) : Preserves (liftM q >>= f) I := by
  intro s hs
  cases q with
  | ok a => exact hf a rfl s hs
  | error stop => exact hs

end Preserves

end Stateful
