import Mathlib.Tactic.Common

/-!
# Checked computations

A computation over machine integers and raw memory ends in one of three ways: with a
value, with one of the error codes of its own interface, or by doing something its
language gives no meaning to (a read outside an object, a wrapped index, a failed
assertion).  `Checked` keeps the last two apart, and `Safe p Q` is the partial
correctness statement that matters for both: `p` never faults, and a value it returns
satisfies `Q`.

`Safe` composes along `>>=` (`Safe.bind`), so one walk through a program proves at once
that it is free of faults and that what it accepts is what it should accept.  `Yields p Q E`
says nothing about faults: a value of `p` satisfies `Q`, and a code of `p` satisfies `E`.
`Related R p q` compares two computations: they stop for the same reason, or return values
that are related.
-/

set_option autoImplicit false

namespace Checked

/-- Why a computation stops without a value: an error code of its interface, or a step
without meaning. -/
inductive Stop (ε φ : Type) where
  | code (c : ε)
  | fault (f : φ)
  deriving DecidableEq, Repr

variable {ε φ α β : Type}

/-- A computation that returns a value, a code or a fault. -/
abbrev Run (ε φ α : Type) := Except (Stop ε φ) α

/-- `p` does not fault, and every value it returns satisfies `Q`. -/
def Safe (p : Run ε φ α) (Q : α → Prop) : Prop :=
  match p with
  | .ok a => Q a
  | .error (.code _) => True
  | .error (.fault _) => False

@[simp] theorem safe_ok (a : α) (Q : α → Prop) : Safe (.ok a : Run ε φ α) Q ↔ Q a :=
  Iff.rfl

@[simp] theorem safe_code (c : ε) (Q : α → Prop) :
    Safe (.error (.code c) : Run ε φ α) Q :=
  trivial

@[simp] theorem safe_pure (a : α) (Q : α → Prop) : Safe (pure a : Run ε φ α) Q ↔ Q a :=
  Iff.rfl

/-- Sequencing: the first part establishes what the second part relies on. -/
theorem Safe.bind {p : Run ε φ α} {f : α → Run ε φ β} {Q : α → Prop} {R : β → Prop}
    (hp : Safe p Q) (hf : ∀ a, Q a → Safe (f a) R) : Safe (p >>= f) R := by
  cases p with
  | ok a => exact hf a hp
  | error s =>
    cases s with
    | code c => trivial
    | fault x => exact hp

/-- A weaker postcondition. -/
theorem Safe.mono {p : Run ε φ α} {Q R : α → Prop} (hp : Safe p Q) (h : ∀ a, Q a → R a) :
    Safe p R := by
  cases p with
  | ok a => exact h a hp
  | error s =>
    cases s with
    | code c => trivial
    | fault x => exact hp

/-- A test may assume its own outcome in each branch. -/
theorem Safe.ite {c : Prop} [Decidable c] {p q : Run ε φ α} {Q : α → Prop}
    (hp : c → Safe p Q) (hq : ¬ c → Safe q Q) : Safe (if c then p else q) Q := by
  split
  · exact hp ‹_›
  · exact hq ‹_›

/-- What a safe computation returns satisfies its postcondition. -/
theorem Safe.of_ok {p : Run ε φ α} {Q : α → Prop} {a : α} (hp : Safe p Q)
    (h : p = .ok a) : Q a := by
  subst h
  exact hp

/-- A safe computation does not fault. -/
theorem Safe.ne_fault {p : Run ε φ α} {Q : α → Prop} (hp : Safe p Q) (f : φ) :
    p ≠ .error (.fault f) := by
  rintro rfl
  exact hp

/-- Without codes a safe computation returns. -/
theorem Safe.exists_ok {p : Run Empty φ α} {Q : α → Prop} (hp : Safe p Q) :
    ∃ a, p = .ok a ∧ Q a := by
  cases p with
  | ok a => exact ⟨a, rfl, hp⟩
  | error s =>
    cases s with
    | code c => exact c.elim
    | fault x => exact hp.elim

/-- A value that `p` returns satisfies `Q`, and a code that it ends with satisfies `E`. -/
def Yields (p : Run ε φ α) (Q : α → Prop) (E : ε → Prop) : Prop :=
  match p with
  | .ok a => Q a
  | .error (.code c) => E c
  | .error (.fault _) => True

section Yields

variable {p : Run ε φ α} {Q : α → Prop} {E : ε → Prop}

@[simp] theorem yields_ok (a : α) : Yields (.ok a : Run ε φ α) Q E ↔ Q a := Iff.rfl

@[simp] theorem yields_code (c : ε) : Yields (.error (.code c) : Run ε φ α) Q E ↔ E c := Iff.rfl

@[simp] theorem yields_fault (x : φ) : Yields (.error (.fault x) : Run ε φ α) Q E := trivial

theorem Yields.bind {f : α → Run ε φ β} {R : β → Prop} (hp : Yields p Q E)
    (hf : ∀ a, Q a → Yields (f a) R E) : Yields (p >>= f) R E := by
  cases p with
  | ok a => exact hf a hp
  | error s =>
    cases s with
    | code c => exact hp
    | fault x => trivial

theorem Yields.mono {Q' : α → Prop} {E' : ε → Prop} (hp : Yields p Q E)
    (hQ : ∀ a, Q a → Q' a) (hE : ∀ c, E c → E' c) : Yields p Q' E' := by
  cases p with
  | ok a => exact hQ a hp
  | error s =>
    cases s with
    | code c => exact hE c hp
    | fault x => trivial

theorem Yields.ite {c : Prop} [Decidable c] {q : Run ε φ α} (hp : c → Yields p Q E)
    (hq : ¬ c → Yields q Q E) : Yields (if c then p else q) Q E := by
  split
  · exact hp ‹_›
  · exact hq ‹_›

/-- A value or a code may be remembered together with where it comes from. -/
theorem Yields.remember (hp : Yields p Q E) :
    Yields p (fun a => p = .ok a ∧ Q a) fun c => p = .error (.code c) ∧ E c := by
  cases p with
  | ok a => exact ⟨rfl, hp⟩
  | error s =>
    cases s with
    | code c => exact ⟨rfl, hp⟩
    | fault x => trivial

theorem yields_true (p : Run ε φ α) : Yields p (fun _ => True) fun _ => True := by
  cases p with
  | ok a => trivial
  | error s => cases s <;> trivial

theorem Yields.of_ok {a : α} (hp : Yields p Q E) (h : p = .ok a) : Q a := by
  subst h
  exact hp

theorem Yields.of_code {c : ε} (hp : Yields p Q E) (h : p = .error (.code c)) : E c := by
  subst h
  exact hp

end Yields

/-- Two computations return related values, or stop for the same reason. -/
def Related {β : Type} (R : α → β → Prop) (p : Run ε φ α) (q : Run ε φ β) : Prop :=
  match p, q with
  | .ok a, .ok b => R a b
  | .error s, .error t => s = t
  | .ok _, .error _ => False
  | .error _, .ok _ => False

section Related

variable {γ δ : Type} {R : α → β → Prop} {S : γ → δ → Prop} {p : Run ε φ α} {q : Run ε φ β}

theorem Related.bind {f : α → Run ε φ γ} {g : β → Run ε φ δ} (hp : Related R p q)
    (hf : ∀ a b, R a b → Related S (f a) (g b)) : Related S (p >>= f) (q >>= g) := by
  cases p with
  | ok a =>
    cases q with
    | ok b => exact hf a b hp
    | error t => exact hp.elim
  | error s =>
    cases q with
    | ok b => exact hp.elim
    | error t => exact hp

/-- A test with the same outcome on both sides. -/
theorem Related.ite {c d : Prop} [Decidable c] [Decidable d] {p' : Run ε φ α} {q' : Run ε φ β}
    (hcd : c ↔ d) (hp : c → Related R p q) (hq : ¬ c → Related R p' q') :
    Related R (if c then p else p') (if d then q else q') := by
  by_cases hc : c
  · rw [if_pos hc, if_pos (hcd.mp hc)]
    exact hp hc
  · rw [if_neg hc, if_neg (mt hcd.mpr hc)]
    exact hq hc

/-- A computation is related to itself. -/
theorem related_self (p : Run ε φ α) : Related Eq p p := by
  cases p <;> rfl

/-- Equal values or the same reason to stop: the same computation. -/
theorem Related.eq {p q : Run ε φ α} (h : Related Eq p q) : p = q := by
  cases p with
  | ok a =>
    cases q with
    | ok b => exact congrArg Except.ok h
    | error t => exact h.elim
  | error s =>
    cases q with
    | ok b => exact h.elim
    | error t => exact congrArg Except.error h

end Related

/-- A computation without codes, as a part of one that has some. -/
def widen : Run Empty φ α → Run ε φ α
  | .ok a => .ok a
  | .error (.code c) => c.elim
  | .error (.fault f) => .error (.fault f)

theorem widen_bind (p : Run Empty φ α) (f : α → Run Empty φ β) :
    (widen (p >>= f) : Run ε φ β) = widen p >>= fun a => widen (f a) := by
  cases p with
  | ok a => rfl
  | error s =>
    cases s with
    | code c => exact c.elim
    | fault x => rfl

@[simp] theorem ok_bind (a : α) (f : α → Run ε φ β) : ((.ok a : Run ε φ α) >>= f) = f a :=
  rfl

@[simp] theorem error_bind (s : Stop ε φ) (f : α → Run ε φ β) :
    ((.error s : Run ε φ α) >>= f) = .error s :=
  rfl

end Checked
