import Mathlib.Tactic.Common

/-!
# Bounded pipes

A pipe whose capacity is a number of buffers of one size.  A writer fills one buffer after the
other; a reader takes elements in order, and a buffer is free again only when everything in it
has been read.  So a pipe can be full although fewer elements wait in it than it can hold.  With
buffers for one element each this does not happen.

Nothing is lost (`written_put?`, `written_take`): what was taken, followed by what is waiting,
is what was written.
-/

set_option autoImplicit false

namespace Pipes

variable {α : Type} {page slots : ℕ}

/-- A pipe with its buffers in use, and everything that has been read from it. -/
structure Pipe (α : Type) (page slots : ℕ) where
  taken : List α
  buffers : List (List α)
  inUse : [] ∉ buffers
  bounded : buffers.length ≤ slots

/-- What `n` elements that are read leave in the buffers. -/
def consume : ℕ → List (List α) → List (List α)
  | _, [] => []
  | n, b :: bs => if n < b.length then b.drop n :: bs else consume (n - b.length) bs

theorem length_consume_le (n : ℕ) (bs : List (List α)) : (consume n bs).length ≤ bs.length := by
  induction bs generalizing n with
  | nil => exact Nat.le_refl _
  | cons b bs ih =>
    unfold consume
    split
    · exact Nat.le_refl _
    · exact Nat.le_succ_of_le (ih _)

theorem nil_notMem_consume {n : ℕ} {bs : List (List α)} (h : [] ∉ bs) : [] ∉ consume n bs := by
  induction bs generalizing n with
  | nil => exact h
  | cons b bs ih =>
    obtain ⟨-, hbs⟩ := not_or.mp (mt List.mem_cons.mpr h)
    unfold consume
    split
    · rename_i hlt
      rw [List.mem_cons, not_or]
      refine ⟨?_, hbs⟩
      intro hnil
      have hlength := congrArg List.length hnil
      rw [List.length_nil, List.length_drop] at hlength
      omega
    · exact ih hbs

theorem flatten_consume (n : ℕ) (bs : List (List α)) :
    (consume n bs).flatten = bs.flatten.drop n := by
  induction bs generalizing n with
  | nil => simp [consume]
  | cons b bs ih =>
    rw [List.flatten_cons, List.drop_append]
    unfold consume
    split
    · rename_i hlt
      rw [List.flatten_cons, Nat.sub_eq_zero_of_le (Nat.le_of_lt hlt), List.drop_zero]
    · rename_i hle
      rw [ih, List.drop_eq_nil_of_le (Nat.not_lt.mp hle), List.nil_append]

namespace Pipe

def empty (α : Type) (page slots : ℕ) : Pipe α page slots :=
  ⟨[], [], List.not_mem_nil, Nat.zero_le _⟩

/-- What is waiting to be read. -/
def waiting (p : Pipe α page slots) : List α := p.buffers.flatten

/-- Everything that has been written into the pipe. -/
def written (p : Pipe α page slots) : List α := p.taken ++ p.waiting

/-- The elements that a writer can still write before somebody reads. -/
def room (p : Pipe α page slots) : ℕ := (slots - p.buffers.length) * page

/-- A writer has to wait. -/
def Full (p : Pipe α page slots) : Prop := p.buffers.length = slots

/-- A buffer is filled, if there is one. -/
def put? (p : Pipe α page slots) (chunk : List α) : Option (Pipe α page slots) :=
  if h : (chunk ≠ [] ∧ chunk.length ≤ page) ∧ p.buffers.length < slots then
    some
      { taken := p.taken
        buffers := p.buffers ++ [chunk]
        inUse := by
          rw [List.mem_append, List.mem_singleton, not_or]
          exact ⟨p.inUse, h.1.1.symm⟩
        bounded := by
          rw [List.length_append]
          exact h.2 }
  else none

/-- The first elements are read, as many as there are. -/
def take (p : Pipe α page slots) (n : ℕ) : Pipe α page slots where
  taken := p.taken ++ p.waiting.take n
  buffers := consume n p.buffers
  inUse := nil_notMem_consume p.inUse
  bounded := Nat.le_trans (length_consume_le n p.buffers) p.bounded

variable (p : Pipe α page slots)

theorem put?_isSome (chunk : List α) (hchunk : chunk ≠ []) (hpage : chunk.length ≤ page)
    (hfree : p.buffers.length < slots) : ∃ q, p.put? chunk = some q :=
  ⟨_, dif_pos ⟨⟨hchunk, hpage⟩, hfree⟩⟩

theorem put?_eq_some {q : Pipe α page slots} {chunk : List α} (h : p.put? chunk = some q) :
    chunk ≠ [] ∧ q.taken = p.taken ∧ q.buffers = p.buffers ++ [chunk] := by
  unfold put? at h
  split at h
  · rename_i hfits
    obtain rfl := Option.some.inj h
    exact ⟨hfits.1.1, rfl, rfl⟩
  · cases h

theorem waiting_put? {q : Pipe α page slots} {chunk : List α} (h : p.put? chunk = some q) :
    q.waiting = p.waiting ++ chunk := by
  rw [waiting, (p.put?_eq_some h).2.2, List.flatten_append, List.flatten_singleton, waiting]

theorem written_put? {q : Pipe α page slots} {chunk : List α} (h : p.put? chunk = some q) :
    q.written = p.written ++ chunk := by
  rw [written, written, (p.put?_eq_some h).2.1, p.waiting_put? h, List.append_assoc]

/-- Whatever is put into a buffer, the room of a whole one is gone. -/
theorem room_put? {q : Pipe α page slots} {chunk : List α} (h : p.put? chunk = some q) :
    q.room + page = p.room := by
  have hlength : q.buffers.length = p.buffers.length + 1 := by
    rw [(p.put?_eq_some h).2.2, List.length_append, List.length_singleton]
  have hbounded := q.bounded
  rw [room, room, hlength, ← Nat.succ_mul]
  congr 1
  omega

@[simp] theorem waiting_take (n : ℕ) : (p.take n).waiting = p.waiting.drop n :=
  flatten_consume n p.buffers

@[simp] theorem written_take (n : ℕ) : (p.take n).written = p.written := by
  rw [written, written, waiting_take, take, List.append_assoc, List.take_append_drop]

/-- Reading never takes room away. -/
theorem room_le_take (n : ℕ) : p.room ≤ (p.take n).room :=
  Nat.mul_le_mul_right page (Nat.sub_le_sub_left (length_consume_le n p.buffers) slots)

/-- A full pipe has something in it. -/
theorem waiting_ne_nil_of_full (hslots : 0 < slots) (h : p.Full) : p.waiting ≠ [] := by
  have hlength : p.buffers.length = slots := h
  intro hempty
  cases hbuffers : p.buffers with
  | nil =>
    rw [hbuffers, List.length_nil] at hlength
    omega
  | cons b bs =>
    rw [waiting, hbuffers, List.flatten_cons, List.append_eq_nil_iff] at hempty
    apply p.inUse
    rw [hbuffers, hempty.1]
    exact List.mem_cons_self

theorem room_of_full (h : p.Full) : p.room = 0 := by
  rw [room, show p.buffers.length = slots from h, Nat.sub_self, Nat.zero_mul]

end Pipe

end Pipes
