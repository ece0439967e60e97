import X509Server.Library.Runs

/-!
# Simulations between labelled transition systems

`Simulates step step' R`: where `R` relates a state of the first system to one of the second,
every step of the first is matched by a run of the second, possibly an empty one, to a state
related to the new one.  Then every run is matched (`Simulates.run`), and what the second
system keeps invariant holds of a state related to the end of any run of the first
(`Simulates.invariant`).  `Lockstep` is the case of one step with the same label for each.
-/

set_option autoImplicit false

namespace Runs

variable {σ τ α β : Type}

/-- Every step of the first system is matched by a run of the second. -/
def Simulates (step : σ → α → σ → Prop) (step' : τ → β → τ → Prop) (R : σ → τ → Prop) : Prop :=
  ∀ s a t u, R s u → step s a t → ∃ bs v, Run step' u bs v ∧ R t v

variable {step : σ → α → σ → Prop} {step' : τ → β → τ → Prop} {R : σ → τ → Prop}

/-- Every run of the first system is matched by a run of the second. -/
theorem Simulates.run (h : Simulates step step' R) {s t : σ} {u : τ} {as : List α}
    (hrun : Run step s as t) (hs : R s u) : ∃ bs v, Run step' u bs v ∧ R t v := by
  induction hrun generalizing u with
  | nil s => exact ⟨[], u, .nil u, hs⟩
  | cons head tail ih =>
    obtain ⟨bs, v, hfirst, hv⟩ := h _ _ _ u hs head
    obtain ⟨bs', w, hrest, hw⟩ := ih hv
    exact ⟨bs ++ bs', w, hfirst.append hrest, hw⟩

/-- Invariants of the second system hold along runs of the first. -/
theorem Simulates.invariant (h : Simulates step step' R) {I : τ → Prop}
    (hstep : ∀ u b v, I u → step' u b v → I v) {s t : σ} {u : τ} {as : List α}
    (hrun : Run step s as t) (hs : R s u) (hu : I u) : ∃ v, R t v ∧ I v := by
  obtain ⟨bs, v, hmatched, hv⟩ := h.run hrun hs
  exact ⟨v, hv, hmatched.invariant hstep hu⟩

/-- Every step of the first system is matched by a step of the second with its label. -/
def Lockstep (step : σ → α → σ → Prop) (step' : τ → α → τ → Prop) (R : σ → τ → Prop) : Prop :=
  ∀ s a t u, R s u → step s a t → ∃ v, step' u a v ∧ R t v

/-- A run is matched by a run with its labels. -/
theorem Lockstep.run {step' : τ → α → τ → Prop} (h : Lockstep step step' R) {s t : σ} {u : τ}
    {as : List α} (hrun : Run step s as t) (hs : R s u) : ∃ v, Run step' u as v ∧ R t v := by
  induction hrun generalizing u with
  | nil s => exact ⟨u, .nil u, hs⟩
  | cons head tail ih =>
    obtain ⟨v, hfirst, hv⟩ := h _ _ _ u hs head
    obtain ⟨w, hrest, hw⟩ := ih hv
    exact ⟨w, .cons hfirst hrest, hw⟩

end Runs
