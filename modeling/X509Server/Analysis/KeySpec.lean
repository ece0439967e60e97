import X509Server.Analysis.ElementSpec
import X509Server.Model.Load

/-!
# The key array

A file is read into the slot behind the keys in use, which then holds one more key or is
still unused.  The removal of a key exchanges it with the last one in use and forgets that.
It permutes every prefix of the array that contains both slots, and its effect on each slot
is given by index, which is what the loop that removes while it iterates is about.
-/

set_option autoImplicit false

namespace X509Server

open Checked

variable {ε : Type}

theorem slotAt_eq {keys : List PubKey} {i : ℕ} (h : i < keys.length) :
    (slotAt keys i : Guarded ε PubKey) = .ok keys[i] := by
  unfold slotAt
  rw [List.getElem?_eq_getElem h]

/-! ## Reading a key -/

theorem KeyStore.reserve_keysSize (s : KeyStore) (memory : ℕ → PubKey) :
    (s.reserve memory).keysSize = s.keysSize := by
  unfold KeyStore.reserve
  split <;> rfl

theorem KeyStore.reserve_size_le (s : KeyStore) (memory : ℕ → PubKey)
    (h : s.keysSize ≤ s.keys.length) :
    (s.reserve memory).keysSize ≤ (s.reserve memory).keys.length := by
  unfold KeyStore.reserve
  split
  · simp
    omega
  · exact h

/-- Growing the array leaves the keys in use. -/
theorem KeyStore.reserve_loaded {s : KeyStore} (memory : ℕ → PubKey)
    (h : s.keysSize ≤ s.keys.length) : (s.reserve memory).loaded = s.loaded := by
  unfold KeyStore.reserve
  split
  · exact List.take_append_of_le_length h
  · rfl

/-- The slot behind the keys in use does not matter to them. -/
theorem loaded_set (keys : List PubKey) (n : ℕ) (key : PubKey) :
    (KeyStore.mk (keys.set n key) n).loaded = keys.take n :=
  List.take_set_of_le (le_refl _)

theorem loaded_set_succ {keys : List PubKey} {n : ℕ} (h : n < keys.length) (key : PubKey) :
    (KeyStore.mk (keys.set n key) (n + 1)).loaded = keys.take n ++ [key] := by
  unfold KeyStore.loaded
  dsimp only
  rw [List.take_add_one, List.take_set_of_le (le_refl _), List.getElem?_set_self h]
  rfl

/-! ## Removing a key -/

theorem slotAt_yields {E : ε → Prop} (keys : List PubKey) (i : ℕ) :
    Yields (slotAt keys i : Guarded ε PubKey) (fun key => keys[i]? = some key) E := by
  unfold slotAt
  split
  · assumption
  · trivial

/-- The removal ends with no code. -/
theorem swapRemove_yields {E : ε → Prop} (s : KeyStore) (i : ℕ) :
    Yields (s.swapRemove i : Guarded ε KeyStore) (fun _ => True) E := by
  unfold KeyStore.swapRemove swapSlots usub
  split
  · rw [ok_bind]
    refine Yields.bind (Q := fun _ => True) ?_ fun _ _ => trivial
    refine (slotAt_yields s.keys i).bind fun a _ => ?_
    exact (slotAt_yields s.keys _).bind fun b _ => trivial
  · trivial

theorem slotAt_append {keys : List PubKey} {i : ℕ} (h : i < keys.length) (extra : List PubKey) :
    (slotAt (keys ++ extra) i : Guarded ε PubKey) = slotAt keys i := by
  unfold slotAt
  rw [List.getElem?_append_left h]

/-- A removal below `n` leaves what lies behind. -/
theorem swapRemove_append {keys : List PubKey} {i n : ℕ} (hi : i < keys.length) (hpos : 0 < n)
    (hn : n ≤ keys.length) (extra : List PubKey) :
    (KeyStore.swapRemove ⟨keys ++ extra, n⟩ i : Guarded ε KeyStore) =
      (KeyStore.swapRemove ⟨keys, n⟩ i).map fun s => ⟨s.keys ++ extra, s.keysSize⟩ := by
  have hlast : n - 1 < keys.length := by omega
  unfold KeyStore.swapRemove swapSlots
  dsimp only
  rw [usub_eq (by omega), ok_bind, ok_bind, slotAt_append hi, slotAt_append hlast, slotAt_eq hi,
    slotAt_eq hlast]
  change Except.ok _ = Except.ok _
  rw [List.set_append_left _ _ hi, List.set_append_left _ _ (by simpa using hlast)]

/-- Removing the key in slot `i`, where both `i` and the last slot in use lie below `n`. -/
theorem KeyStore.swapRemove_spec (ε : Type) (s : KeyStore) {i n : ℕ} (hi : i < n)
    (hpos : 0 < s.keysSize) (hsize : s.keysSize ≤ n) (hn : n ≤ s.keys.length) :
    ∃ s', (s.swapRemove i : Guarded ε KeyStore) = .ok s' ∧ s'.keysSize = s.keysSize - 1 ∧
      s'.keys.length = s.keys.length ∧ (s'.keys.take n).Perm (s.keys.take n) ∧
      ∀ j, s'.keys[j]? = if j = s.keysSize - 1 then s.keys[i]?
        else if j = i then s.keys[s.keysSize - 1]? else s.keys[j]? := by
  have hi' : i < s.keys.length := by omega
  have hlast : s.keysSize - 1 < s.keys.length := by omega
  have hlen : (s.keys.take n).length = n := by
    rw [List.length_take]
    omega
  refine ⟨⟨(s.keys.set i s.keys[s.keysSize - 1]).set (s.keysSize - 1) s.keys[i],
    s.keysSize - 1⟩, ?_, rfl, by simp, ?_, ?_⟩
  · unfold swapRemove swapSlots
    rw [usub_eq (by omega), ok_bind, slotAt_eq hi', ok_bind, slotAt_eq hlast]
    rfl
  · rw [List.take_set, List.take_set]
    have hperm := @List.set_set_perm _ (s.keys.take n) i (s.keysSize - 1) (by omega) (by omega)
    simpa only [List.getElem_take] using hperm
  · intro j
    dsimp only
    rw [List.getElem?_set, List.getElem?_set, List.getElem?_eq_getElem hi',
      List.getElem?_eq_getElem hlast]
    simp only [List.length_set, hi', hlast, if_true, eq_comm (a := j)]

end X509Server
