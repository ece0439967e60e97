import Mathlib.Tactic.Common

/-!
# Windows of a list

`window b i e` is the part of `b` from index `i` up to, and without, index `e`: what a
cursor at `i` still sees when it may not pass `e`.  A decoder that works with a cursor on
one shared buffer is compared with a decoder that consumes a list through these lemmas:
reading the byte under the cursor is taking the head of the window, and what is left
after a prefix `s` is the window from `i + s.length`.
-/

set_option autoImplicit false

namespace ByteWindow

variable {α : Type}

/-- The elements of `b` at the indices `i, …, e - 1`. -/
def window (b : List α) (i e : ℕ) : List α := (b.drop i).take (e - i)

theorem length_window {b : List α} {e : ℕ} (i : ℕ) (he : e ≤ b.length) :
    (window b i e).length = e - i := by
  simp only [window, List.length_take, List.length_drop]
  omega

theorem length_window_le (b : List α) (i e : ℕ) : (window b i e).length ≤ e - i := by
  simp only [window, List.length_take]
  omega

theorem window_full (b : List α) : window b 0 b.length = b := by
  simp [window]

theorem window_eq_nil {b : List α} {i e : ℕ} (h : e ≤ i) : window b i e = [] := by
  simp [window, Nat.sub_eq_zero_of_le h]

/-- In front of its end the window starts with the element under the cursor. -/
theorem window_eq_cons {b : List α} {i e : ℕ} (hi : i < e) (he : e ≤ b.length) :
    ∃ x, b[i]? = some x ∧ window b i e = x :: window b (i + 1) e := by
  have hib : i < b.length := by omega
  refine ⟨b[i], List.getElem?_eq_getElem hib, ?_⟩
  obtain ⟨n, hn⟩ : ∃ n, e - i = n + 1 := ⟨e - i - 1, by omega⟩
  simp only [window]
  rw [List.drop_eq_getElem_cons hib, hn, List.take_succ_cons,
    show e - (i + 1) = n by omega]

/-- The window up to the end of a prefix is the prefix, the window behind it the rest. -/
theorem of_window_append {b : List α} {i e : ℕ} {s r : List α}
    (h : window b i e = s ++ r) :
    window b i (i + s.length) = s ∧ window b (i + s.length) e = r := by
  have hle : s.length ≤ e - i := by
    have := length_window_le b i e
    rw [h, List.length_append] at this
    omega
  simp only [window] at h ⊢
  constructor
  · have htake := congrArg (List.take s.length) h
    rw [List.take_take, Nat.min_eq_left hle, List.take_left] at htake
    rwa [Nat.add_sub_cancel_left]
  · have hdrop := congrArg (List.drop s.length) h
    rw [List.drop_take, List.drop_drop, List.drop_left] at hdrop
    rwa [Nat.sub_add_eq]

/-- A window that shows a prefix reaches at least to the end of what it shows. -/
theorem le_of_window_append {b : List α} {i e : ℕ} {s r : List α}
    (h : window b i e = s ++ r) (hs : s ≠ []) : i + s.length + r.length ≤ e := by
  have hpos := List.length_pos_iff.mpr hs
  have := length_window_le b i e
  rw [h, List.length_append] at this
  omega

/-- The head of the window is the element under the cursor, its tail what the advanced
cursor sees. -/
theorem of_window_cons {b : List α} {i e : ℕ} {x : α} {w : List α}
    (h : window b i e = x :: w) : i < e ∧ b[i]? = some x ∧ window b (i + 1) e = w := by
  have hie := le_of_window_append (s := [x]) h (by simp)
  refine ⟨by simp at hie; omega, ?_, (of_window_append (s := [x]) h).2⟩
  have hx := congrArg (fun l => l[0]?) h
  simp only [window, List.getElem?_cons_zero] at hx
  rw [List.getElem?_take_of_lt (by simp at hie; omega), List.getElem?_drop] at hx
  simpa using hx

/-- The last element of a window that ends inside the list. -/
theorem getElem?_last_of_window {b : List α} {i e : ℕ} {w : List α} {x : α}
    (h : window b i e = w ++ [x]) (he : e ≤ b.length) : b[e - 1]? = some x := by
  obtain ⟨hlt, hx, htail⟩ := of_window_cons (of_window_append h).2
  have hlen := length_window (b := b) (i + w.length + 1) he
  rw [htail, List.length_nil] at hlen
  rwa [show e - 1 = i + w.length by omega]

/-- A window may be cut at every index it covers. -/
theorem window_split (b : List α) {i m e : ℕ} (him : i ≤ m) (hme : m ≤ e) :
    window b i e = window b i m ++ window b m e := by
  obtain ⟨k, rfl⟩ := Nat.exists_eq_add_of_le him
  obtain ⟨l, rfl⟩ := Nat.exists_eq_add_of_le hme
  simp only [window]
  rw [show i + k + l - i = k + l by omega, show i + k - i = k by omega,
    show i + k + l - (i + k) = l by omega, List.take_add, List.drop_drop]

end ByteWindow
