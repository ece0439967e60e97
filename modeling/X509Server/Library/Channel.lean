import Mathlib.Data.List.Infix

/-!
# Channels

One direction of a connection, as its reader sees it: what has been read, what has arrived
and can be read, and what is still on its way.  The writer writes until it finishes; what it
wrote arrives in order, and its end arrives behind all of it.  A channel may break, and then
nothing else is certain to arrive.

`sent` is everything the writer has written.  Reading and arriving do not change it
(`sent_take`, `later_move`), and a reader that has come to the end has read exactly what was
sent (`Drained.read_eq_sent`).
-/

set_option autoImplicit false

namespace Channels

variable {α : Type}

structure Channel (α : Type) where
  read : List α
  arrived : List α
  coming : List α
  /-- the writer writes no more -/
  finished : Bool
  /-- the reader's side knows that -/
  ended : Bool
  broken : Bool
  ended_ok : ended = true → finished = true ∧ coming = []

/-- What happens to a channel while nothing is read. -/
inductive Move (α : Type) where
  | write (chunk : List α)
  | finish
  | arrive (n : ℕ)
  | arriveEnd
  | breaks

namespace Channel

def empty : Channel α where
  read := []
  arrived := []
  coming := []
  finished := false
  ended := false
  broken := false
  ended_ok h := nomatch h

/-- Everything that has been written. -/
def sent (c : Channel α) : List α := c.read ++ (c.arrived ++ c.coming)

/-- One move; none where the writer has finished and writes, or the end would overtake. -/
def move (c : Channel α) : Move α → Option (Channel α)
  | .write chunk =>
    if h : c.finished = false then
      some { c with
        coming := c.coming ++ chunk
        ended_ok := fun hended => by
          rw [(c.ended_ok hended).1] at h
          cases h }
    else none
  | .finish => some { c with finished := true, ended_ok := fun h => ⟨rfl, (c.ended_ok h).2⟩ }
  | .arrive n =>
    some { c with
      arrived := c.arrived ++ c.coming.take n
      coming := c.coming.drop n
      ended_ok := fun h => ⟨(c.ended_ok h).1, by rw [(c.ended_ok h).2, List.drop_nil]⟩ }
  | .arriveEnd =>
    if h : c.finished = true ∧ c.coming = [] then
      some { c with ended := true, ended_ok := fun _ => h }
    else none
  | .breaks => some { c with broken := true }

/-- The reader takes what has arrived, up to `n` elements. -/
def take (c : Channel α) (n : ℕ) : Channel α :=
  { c with read := c.read ++ c.arrived.take n, arrived := c.arrived.drop n }

/-- The reader has come to the end. -/
def Drained (c : Channel α) : Prop := c.ended = true ∧ c.arrived = []

/-- One state of a channel comes after another: more may have been written and read, nothing
is taken back, and what was finished stays as it was. -/
structure Later (c d : Channel α) : Prop where
  sent : c.sent <+: d.sent
  finished : c.finished = true → d.finished = true ∧ d.sent = c.sent
  ended : c.ended = true → d.ended = true
  broken : c.broken = true → d.broken = true

variable {c d e : Channel α}

theorem Later.refl (c : Channel α) : c.Later c :=
  ⟨List.prefix_rfl, fun h => ⟨h, rfl⟩, id, id⟩

theorem Later.trans (h : c.Later d) (h' : d.Later e) : c.Later e where
  sent := h.sent.trans h'.sent
  finished hc := by
    obtain ⟨hd, hsame⟩ := h.finished hc
    obtain ⟨he, hsame'⟩ := h'.finished hd
    exact ⟨he, hsame'.trans hsame⟩
  ended hc := h'.ended (h.ended hc)
  broken hc := h'.broken (h.broken hc)

@[simp] theorem sent_empty : (empty : Channel α).sent = [] := rfl

@[simp] theorem sent_take (c : Channel α) (n : ℕ) : (c.take n).sent = c.sent := by
  unfold sent take
  rw [List.append_assoc, ← List.append_assoc (c.arrived.take n), List.take_append_drop]

/-- What is read of an initial part of what has arrived. -/
theorem take_read {chunk : List α} (h : chunk <+: c.arrived) :
    (c.take chunk.length).read = c.read ++ chunk := by
  unfold take
  rw [← List.prefix_iff_eq_take.mp h]

/-- Reading takes nothing back. -/
theorem later_take (c : Channel α) (n : ℕ) : c.Later (c.take n) where
  sent := by rw [sent_take]
  finished h := ⟨h, sent_take c n⟩
  ended := id
  broken := id

/-- A move neither reads nor takes anything back. -/
theorem later_move {m : Move α} (h : c.move m = some d) : c.Later d ∧ d.read = c.read := by
  cases m with
  | write chunk =>
    simp only [move] at h
    split at h
    · rename_i hopen
      obtain rfl := Option.some.inj h
      refine ⟨⟨⟨chunk, by simp [sent]⟩, fun hfinished => ?_, id, id⟩, rfl⟩
      rw [hopen] at hfinished
      cases hfinished
    · cases h
  | finish =>
    obtain rfl := Option.some.inj h
    exact ⟨⟨List.prefix_rfl, fun _ => ⟨rfl, rfl⟩, id, id⟩, rfl⟩
  | arrive n =>
    obtain rfl := Option.some.inj h
    have hsent : c.read ++ (c.arrived ++ c.coming.take n ++ c.coming.drop n) = c.sent := by
      rw [List.append_assoc c.arrived, List.take_append_drop]
      rfl
    exact ⟨⟨hsent ▸ List.prefix_rfl, fun hfinished => ⟨hfinished, hsent⟩, id, id⟩, rfl⟩
  | arriveEnd =>
    simp only [move] at h
    split at h
    · obtain rfl := Option.some.inj h
      exact ⟨⟨List.prefix_rfl, fun hfinished => ⟨hfinished, rfl⟩, fun _ => rfl, id⟩, rfl⟩
    · cases h
  | breaks =>
    obtain rfl := Option.some.inj h
    exact ⟨⟨List.prefix_rfl, fun hfinished => ⟨hfinished, rfl⟩, id, fun _ => rfl⟩, rfl⟩

/-- At the end everything that was sent has been read, and no more will be. -/
theorem Drained.read_eq_sent (h : c.Drained) : c.finished = true ∧ c.read = c.sent := by
  obtain ⟨hfinished, hcoming⟩ := c.ended_ok h.1
  refine ⟨hfinished, ?_⟩
  rw [sent, h.2, hcoming, List.append_nil, List.append_nil]

end Channel

end Channels
