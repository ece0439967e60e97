import Mathlib.Data.List.Nodup
import Mathlib.Logic.Function.Basic

/-!
# Ledgers of live objects

A manual allocator is described by the set of objects that are live.  A ledger divides them
into those that are held here, each once, and those of others.  Acquiring and releasing
change the held part only, so what others hold is never touched; a double release is
releasing something that is not in the ledger.

An `Account` is the allocator as a state, which counts what goes wrong; it is in balance
(`Account.Balanced`) with a list of what has been acquired and not yet released.
-/

set_option autoImplicit false

namespace Ledgers

variable {α : Type}

/-- The live objects are those of others and the held ones. -/
structure Ledger (live : α → Bool) (others : α → Prop) (held : List α) : Prop where
  live_iff : ∀ a, live a = true ↔ others a ∨ a ∈ held
  nodup : held.Nodup
  disjoint : ∀ a ∈ held, ¬ others a

namespace Ledger

variable {live : α → Bool} {others : α → Prop} {held held' : List α} {a : α}

/-- A ledger with nothing held. -/
theorem nil (live : α → Bool) : Ledger live (fun a => live a = true) [] where
  live_iff := by simp
  nodup := List.nodup_nil
  disjoint := by simp

theorem live_of_mem (h : Ledger live others held) (ha : a ∈ held) : live a = true :=
  (h.live_iff a).mpr (Or.inr ha)

theorem live_of_others (h : Ledger live others held) (ha : others a) : live a = true :=
  (h.live_iff a).mpr (Or.inl ha)

/-- The order of the entries does not matter. -/
theorem perm (h : Ledger live others held) (hp : held.Perm held') : Ledger live others held' where
  live_iff b := by rw [h.live_iff, hp.mem_iff]
  nodup := hp.nodup_iff.mp h.nodup
  disjoint b hb := h.disjoint b (hp.mem_iff.mpr hb)

/-- Live objects of others are taken over. -/
theorem claim {claimed : List α} (h : Ledger live others held) (hnodup : claimed.Nodup)
    (hclaimed : ∀ a ∈ claimed, others a) :
    Ledger live (fun a => others a ∧ a ∉ claimed) (claimed ++ held) where
  live_iff a := by
    rw [h.live_iff, List.mem_append]
    by_cases ha : a ∈ claimed
    · simp [ha, hclaimed a ha]
    · simp [ha]
  nodup := List.nodup_append'.mpr
    ⟨hnodup, h.nodup, fun a ha hmem => h.disjoint a hmem (hclaimed a ha)⟩
  disjoint a ha := by
    rcases List.mem_append.mp ha with ha | ha
    · exact fun hothers => hothers.2 ha
    · exact fun hothers => h.disjoint a ha hothers.1

/-- Entries can be left to others for a while, as long as none of them is theirs already and
none is entered twice. -/
theorem frame_iff {framed : List α} : Ledger live others (framed ++ held) ↔
    (framed.Nodup ∧ ∀ a ∈ framed, ¬ others a) ∧
      Ledger live (fun a => others a ∨ a ∈ framed) held := by
  constructor
  · intro h
    obtain ⟨hframed, hheld, hapart⟩ := List.nodup_append'.mp h.nodup
    refine ⟨⟨hframed, fun a ha => h.disjoint a (List.mem_append_left held ha)⟩, ?_, hheld, ?_⟩
    · intro a
      rw [h.live_iff, List.mem_append, or_assoc]
    · rintro a ha (hothers | hmem)
      · exact h.disjoint a (List.mem_append_right framed ha) hothers
      · exact hapart hmem ha
  · rintro ⟨⟨hframed, hothers⟩, h⟩
    refine ⟨fun a => ?_, ?_, fun a ha => ?_⟩
    · rw [h.live_iff, List.mem_append, or_assoc]
    · exact List.nodup_append'.mpr
        ⟨hframed, h.nodup, fun a ha hmem => h.disjoint a hmem (Or.inr ha)⟩
    · rcases List.mem_append.mp ha with ha | ha
      · exact hothers a ha
      · exact fun hb => h.disjoint a ha (Or.inl hb)

variable [DecidableEq α]

/-- A new object is held. -/
theorem acquire (h : Ledger live others held) (ha : live a = false) :
    Ledger (Function.update live a true) others (a :: held) where
  live_iff b := by
    by_cases hb : b = a
    · subst hb
      simp
    · rw [Function.update_of_ne hb, h.live_iff, List.mem_cons]
      simp [hb]
  nodup := by
    refine List.nodup_cons.mpr ⟨fun hmem => ?_, h.nodup⟩
    exact absurd (h.live_of_mem hmem) (by simp [ha])
  disjoint b hb := by
    rcases List.mem_cons.mp hb with rfl | hb
    · intro hothers
      exact absurd (h.live_of_others hothers) (by simp [ha])
    · exact h.disjoint b hb

/-- A held object is released. -/
theorem release (h : Ledger live others (a :: held)) :
    Ledger (Function.update live a false) others held where
  live_iff b := by
    obtain ⟨hnot, -⟩ := List.nodup_cons.mp h.nodup
    have hothers := h.disjoint a (by simp)
    by_cases hb : b = a
    · subst hb
      simp [hnot, hothers]
    · rw [Function.update_of_ne hb, h.live_iff, List.mem_cons]
      simp [hb]
  nodup := (List.nodup_cons.mp h.nodup).2
  disjoint b hb := h.disjoint b (List.mem_cons_of_mem a hb)

end Ledger

/-! ## Accounts -/

/-- The live objects of an allocator, how often one was released that was not live, and how
often one was given out that was live already. -/
structure Account (α : Type) where
  live : α → Bool
  misuses : ℕ
  clashes : ℕ

namespace Account

/-- Unless an object has been given out twice since `start`, what is live is what was live
then and what is held, and nothing has been misused. -/
structure Balanced (start t : Account α) (held : List α) : Prop where
  clashes_le : start.clashes ≤ t.clashes
  ledger : t.clashes = start.clashes → Ledger t.live (fun a => start.live a = true) held
  misuses : t.clashes = start.clashes → t.misuses = start.misuses

variable {start t : Account α} {held held' : List α} {a : α}

theorem Balanced.refl (t : Account α) : Balanced t t [] where
  clashes_le := Nat.le_refl _
  ledger _ := .nil t.live
  misuses _ := rfl

theorem Balanced.perm (h : Balanced start t held) (hp : held.Perm held') :
    Balanced start t held' :=
  ⟨h.clashes_le, fun heq => (h.ledger heq).perm hp, h.misuses⟩

/-- With nothing held, the account is the one from the start. -/
theorem Balanced.eq (h : Balanced start t []) (hclashes : t.clashes = start.clashes) :
    t = start := by
  have hlive : t.live = start.live := by
    funext a
    have hiff := (h.ledger hclashes).live_iff a
    simp only [List.not_mem_nil, or_false] at hiff
    exact Bool.eq_iff_iff.mpr hiff
  obtain ⟨live, misuses, clashes⟩ := t
  obtain rfl : live = start.live := hlive
  obtain rfl : misuses = start.misuses := h.misuses hclashes
  obtain rfl : clashes = start.clashes := hclashes
  rfl

variable [DecidableEq α]

def acquire (t : Account α) (a : α) : Account α :=
  if t.live a = true then { t with clashes := t.clashes + 1 }
  else { t with live := Function.update t.live a true }

def release (t : Account α) (a : α) : Account α :=
  if t.live a = true then { t with live := Function.update t.live a false }
  else { t with misuses := t.misuses + 1 }

theorem Balanced.acquire (h : Balanced start t held) (a : α) :
    Balanced start (t.acquire a) (a :: held) := by
  have hle := h.clashes_le
  unfold Account.acquire
  split
  · have hne : t.clashes + 1 ≠ start.clashes := by omega
    exact ⟨by dsimp only; omega, fun heq => absurd heq hne, fun heq => absurd heq hne⟩
  · rename_i hfree
    refine ⟨hle, fun heq => ?_, h.misuses⟩
    exact (h.ledger heq).acquire (by simpa using hfree)

/-- Giving out what was live at the start is a clash. -/
theorem Balanced.acquire_live (h : Balanced start t held) (ha : start.live a = true)
    (held' : List α) : Balanced start (t.acquire a) held' := by
  have hle := h.clashes_le
  have hlt : start.clashes < (t.acquire a).clashes := by
    unfold Account.acquire
    split
    · exact Nat.lt_succ_of_le hle
    · rename_i hfree
      apply Nat.lt_of_le_of_ne hle
      intro heq
      exact hfree ((h.ledger heq.symm).live_of_others ha)
  have hne := Nat.ne_of_gt hlt
  exact ⟨Nat.le_of_lt hlt, fun heq => absurd heq hne, fun heq => absurd heq hne⟩

theorem Balanced.release (h : Balanced start t (a :: held)) :
    Balanced start (t.release a) held := by
  unfold Account.release
  split
  · exact ⟨h.clashes_le, fun heq => (h.ledger heq).release, h.misuses⟩
  · rename_i hfree
    have hne : t.clashes ≠ start.clashes := by
      intro heq
      exact hfree ((h.ledger heq).live_of_mem List.mem_cons_self)
    exact ⟨h.clashes_le, fun heq => absurd heq hne, fun heq => absurd heq hne⟩

/-- Everything that is held is released in its order. -/
theorem Balanced.releaseAll {released : List α} (h : Balanced start t (released ++ held)) :
    Balanced start (released.foldl Account.release t) held := by
  induction released generalizing t with
  | nil => exact h
  | cons a released ih => exact ih h.release

end Account

end Ledgers
