import Mathlib.Tactic.Common

/-!
# Prefix codes

In a prefix code no word is the beginning of another one, so that a word can be read off
the front of a string in one way only.  An encoding that is used at the end of its data
needs less: it suffices that no two values share a word (`Unambiguous`).  Both notions are
taken up to a bound on the length of the words, since a length field of bounded size tells
shorter words only.

Behind a prefix code any unambiguous encoding may follow; a list of words is unambiguous,
and so is an optional word in front of words which it cannot be mistaken for.
-/

set_option autoImplicit false

namespace PrefixCode

variable {α β γ δ : Type}

/-- Words shorter than `n` are read off the front of a string in one way only. -/
def IsPrefixCode (n : ℕ) (f : α → List β) : Prop :=
  ∀ ⦃a b : α⦄ ⦃s t : List β⦄, (f a).length < n → (f b).length < n →
    f a ++ s = f b ++ t → a = b ∧ s = t

/-- A word shorter than `n` stands for one value only. -/
def Unambiguous (n : ℕ) (f : α → List β) : Prop :=
  ∀ ⦃a b : α⦄, (f a).length < n → f a = f b → a = b

variable {n : ℕ} {f : α → List β} {g : γ → List β}

theorem IsPrefixCode.unambiguous (hf : IsPrefixCode n f) : Unambiguous n f := by
  intro a b ha hab
  have hb : (f b).length < n := hab ▸ ha
  have happ : f a ++ [] = f b ++ [] := by rw [hab]
  exact (hf ha hb happ).1

/-! ## Building encodings -/

theorem IsPrefixCode.comp (hf : IsPrefixCode n f) {i : δ → α} (hi : Function.Injective i) :
    IsPrefixCode n fun d => f (i d) := by
  intro a b s t ha hb h
  obtain ⟨hab, hst⟩ := hf ha hb h
  exact ⟨hi hab, hst⟩

theorem Unambiguous.comp (hf : Unambiguous n f) {i : δ → α} (hi : Function.Injective i) :
    Unambiguous n fun d => f (i d) :=
  fun _ _ ha h => hi (hf ha h)

/-- Plain strings, which end where the data ends. -/
theorem unambiguous_id : Unambiguous n (id : List β → List β) :=
  fun _ _ _ h => h

/-- A fixed word in front. -/
theorem Unambiguous.cons_word (hg : Unambiguous n g) (w : List β) :
    Unambiguous n fun c => w ++ g c := by
  intro a b ha h
  rw [List.length_append] at ha
  exact hg (by omega) (List.append_cancel_left h)

/-- What follows a prefix code need not be one. -/
theorem IsPrefixCode.append (hf : IsPrefixCode n f) (hg : Unambiguous n g) :
    Unambiguous n fun p : α × γ => f p.1 ++ g p.2 := by
  rintro ⟨a, c⟩ ⟨b, d⟩ ha h
  have hb := congrArg List.length h
  simp only [List.length_append] at ha hb h
  obtain ⟨rfl, hrest⟩ := hf (by omega) (by omega) h
  rw [hg (by omega) hrest]

/-- An optional word in front of words that do not start with one. -/
theorem IsPrefixCode.optional (hf : IsPrefixCode n f) (hg : Unambiguous n g)
    (hne : ∀ a s c, f a ++ s ≠ g c) :
    Unambiguous n fun p : Option α × γ => p.1.elim [] f ++ g p.2 := by
  rintro ⟨a, c⟩ ⟨b, d⟩ hlen h
  have hlen' := congrArg List.length h
  simp only [List.length_append] at hlen hlen' h
  cases a with
  | none =>
    cases b with
    | none => rw [hg (by omega) h]
    | some b => exact absurd h.symm (hne b (g d) c)
  | some a =>
    cases b with
    | none => exact absurd h (hne a (g c) d)
    | some b =>
      simp only [Option.elim_some] at hlen hlen' h
      obtain ⟨rfl, hrest⟩ := hf (by omega) (by omega) h
      rw [hg (by omega) hrest]

/-- A list of words without the empty one. -/
theorem IsPrefixCode.flatMap (hf : IsPrefixCode n f) (hne : ∀ a, f a ≠ []) :
    Unambiguous n (List.flatMap f) := by
  intro as
  -- the words are taken off the front, one from each list
  induction as with
  | nil =>
    intro bs _ h
    cases bs with
    | nil => rfl
    | cons b bs =>
      rw [List.flatMap_nil, List.flatMap_cons] at h
      exact absurd (List.append_eq_nil_iff.mp h.symm).1 (hne b)
  | cons a as ih =>
    intro bs hlen h
    cases bs with
    | nil =>
      rw [List.flatMap_nil, List.flatMap_cons] at h
      exact absurd (List.append_eq_nil_iff.mp h).1 (hne a)
    | cons b bs =>
      have hlen' := congrArg List.length h
      rw [List.flatMap_cons] at hlen
      rw [List.flatMap_cons, List.flatMap_cons] at h hlen'
      simp only [List.length_append] at hlen hlen'
      obtain ⟨rfl, hrest⟩ := hf (by omega) (by omega) h
      rw [ih (by omega) hrest]

end PrefixCode
