import Mathlib.Data.List.Nodup
import Mathlib.Logic.Function.Basic

/-!
# Queues in order of arrival

A queue lists its members in the order in which they arrived; a member that arrives again
goes to the end.  Some members carry a stamp.  As long as a new stamp is never below the ones
that are there, the stamps ascend along the queue (`Stamped`), and the first member with a
stamp has the least one.  Members with equal stamps are told apart by the queue only.
-/

set_option autoImplicit false

namespace Queues

variable {α τ : Type} [LE τ]

/-- Every member occurs once, whatever has a stamp is a member, and the stamps ascend along
the queue. -/
structure Stamped (stamp : α → Option τ) (queue : List α) : Prop where
  nodup : queue.Nodup
  mem : ∀ a, stamp a ≠ none → a ∈ queue
  ascending : queue.Pairwise fun a b => ∀ s t, stamp a = some s → stamp b = some t → s ≤ t

/-- No stamp lies behind `now`. -/
def Until (stamp : α → Option τ) (now : τ) : Prop := ∀ a s, stamp a = some s → s ≤ now

variable {stamp : α → Option τ} {queue : List α} {now : τ}

theorem Stamped.nil : Stamped (fun _ : α => (none : Option τ)) [] := by
  refine ⟨List.nodup_nil, ?_, List.Pairwise.nil⟩
  intro a ha
  exact absurd rfl ha

/-- The first member with a stamp has the least one, and everything else that has a stamp
comes behind it. -/
theorem Stamped.first (h : Stamped stamp queue) {a : α} {rest : List α}
    (hqueue : queue.filter (fun b => (stamp b).isSome) = a :: rest) {s : τ}
    (hs : stamp a = some s) {b : α} {t : τ} (ht : stamp b = some t) :
    b = a ∨ b ∈ rest ∧ s ≤ t := by
  have hmem : b ∈ queue.filter fun b => (stamp b).isSome := by
    apply List.mem_filter.mpr
    exact ⟨h.mem b (by simp [ht]), by simp [ht]⟩
  rw [hqueue] at hmem
  rcases List.mem_cons.mp hmem with heq | hrest
  · exact Or.inl heq
  · have hascending := h.ascending.sublist
      (List.filter_sublist (l := queue) (p := fun b => (stamp b).isSome))
    rw [hqueue] at hascending
    exact Or.inr ⟨hrest, (List.pairwise_cons.mp hascending).1 b hrest s t hs ht⟩

/-! ## Arrivals -/

variable [DecidableEq α]

/-- The queue without a member. -/
def leave (queue : List α) (a : α) : List α := queue.filter fun b => b ≠ a

/-- The queue behind the arrival of a member. -/
def arrive (queue : List α) (a : α) : List α := leave queue a ++ [a]

omit [LE τ] in
theorem mem_leave {a b : α} : b ∈ leave queue a ↔ b ∈ queue ∧ b ≠ a := by
  simp [leave]

/-- A stamp is given that no `now` is behind, or one is taken away. -/
theorem Until.update (h : Until stamp now) {a : α} {stamp' : Option τ}
    (hstamp : ∀ s, stamp' = some s → s ≤ now) : Until (Function.update stamp a stamp') now := by
  intro b s hs
  by_cases hb : b = a
  · subst hb
    rw [Function.update_self] at hs
    exact hstamp s hs
  · rw [Function.update_of_ne hb] at hs
    exact h b s hs

/-- Giving or taking one stamp does not disturb the order of the others. -/
theorem Stamped.ascending_leave (h : Stamped stamp queue) (a : α) (stamp' : Option τ) :
    (leave queue a).Pairwise fun b c => ∀ s t, Function.update stamp a stamp' b = some s →
      Function.update stamp a stamp' c = some t → s ≤ t := by
  apply (h.ascending.sublist List.filter_sublist).imp_of_mem
  intro b c hb hc hbc
  rw [Function.update_of_ne (mem_leave.mp hb).2, Function.update_of_ne (mem_leave.mp hc).2]
  exact hbc

/-- A member leaves, and its stamp is taken away. -/
theorem Stamped.leave (h : Stamped stamp queue) (a : α) :
    Stamped (Function.update stamp a none) (leave queue a) where
  nodup := h.nodup.filter _
  mem := by
    intro b hb
    by_cases heq : b = a
    · subst heq
      exact absurd (Function.update_self b none stamp) hb
    · rw [Function.update_of_ne heq] at hb
      exact mem_leave.mpr ⟨h.mem b hb, heq⟩
  ascending := h.ascending_leave a none

/-- A member arrives, with a stamp that no other one exceeds, or without one. -/
theorem Stamped.arrive (h : Stamped stamp queue) (a : α) {stamp' : Option τ}
    (hstamp : ∀ s, stamp' = some s → Until stamp s) :
    Stamped (Function.update stamp a stamp') (arrive queue a) where
  nodup := by
    apply (h.leave a).nodup.append (List.nodup_singleton a)
    intro b hb hb'
    exact (mem_leave.mp hb).2 (List.mem_singleton.mp hb')
  mem := by
    intro b hb
    by_cases heq : b = a
    · exact List.mem_append_right _ (by simp [heq])
    · rw [Function.update_of_ne heq] at hb
      exact List.mem_append_left _ (mem_leave.mpr ⟨h.mem b hb, heq⟩)
  ascending := by
    apply List.pairwise_append.mpr
    refine ⟨h.ascending_leave a stamp', List.pairwise_singleton _ _, ?_⟩
    intro b hb c hc s t hs ht
    rw [Function.update_of_ne (mem_leave.mp hb).2] at hs
    rw [List.mem_singleton.mp hc, Function.update_self] at ht
    exact hstamp t ht b s hs

end Queues
