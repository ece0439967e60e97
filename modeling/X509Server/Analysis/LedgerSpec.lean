import X509Server.Library.Ledger
import X509Server.Analysis.WorldSpec

/-!
# The objects of OpenSSL

The live objects of a `World` as a ledger, and what each call does to it.  The calls of
crypto.c acquire and release objects in the order of a stack, so a lemma about the head of
the held list is enough for them.
-/

set_option autoImplicit false

namespace X509Server

open Checked Ledgers

/-- The live objects are those of others and the held ones, all of them have been given out,
and the misuses are as listed. -/
structure World.Accounts (w : World) (others : ℕ → Prop) (held : List ℕ)
    (misuses : List Misuse) : Prop where
  ledger : Ledger w.live others held
  given : ∀ h, w.live h = true → h ≠ null ∧ h < w.next
  next_pos : null < w.next
  misuses_eq : w.misuses = misuses

/-- The object a handle stands for, none for `NULL`. -/
def owned (handle : ℕ) : List ℕ := if handle = null then [] else [handle]

@[simp] theorem owned_null : owned null = [] := rfl

theorem owned_of_ne {handle : ℕ} (h : handle ≠ null) : owned handle = [handle] := if_neg h

/-- What `out:` releases, in the order in which it was acquired, the last one first. -/
def RsaLocals.owned (l : RsaLocals) : List ℕ :=
  X509Server.owned l.ctx ++ (X509Server.owned l.rsaParams ++ (X509Server.owned l.rsaBuild ++
    (X509Server.owned l.exp ++ X509Server.owned l.modulus)))

namespace World.Accounts

variable {w : World} {others : ℕ → Prop} {held held' : List ℕ} {misuses : List Misuse}

theorem perm (h : w.Accounts others held misuses) (hp : held.Perm held') :
    w.Accounts others held' misuses :=
  { h with ledger := h.ledger.perm hp }

theorem not_others_null (h : w.Accounts others held misuses) : ¬ others null :=
  fun hnull => (h.given null (h.ledger.live_of_others hnull)).1 rfl

theorem ne_null_of_mem (h : w.Accounts others held misuses) {handle : ℕ}
    (hmem : handle ∈ held) : handle ≠ null :=
  (h.given handle (h.ledger.live_of_mem hmem)).1

/-- Two worlds with the same objects and misuses. -/
theorem congr (h : w.Accounts others held misuses) {w' : World} (hlive : w'.live = w.live)
    (hnext : w'.next = w.next) (hmisuses : w'.misuses = w.misuses) :
    w'.Accounts others held misuses where
  ledger := hlive ▸ h.ledger
  given := by
    rw [hlive, hnext]
    exact h.given
  next_pos := hnext ▸ h.next_pos
  misuses_eq := hmisuses.trans h.misuses_eq

variable (env : OpenSsl)

/-- A constructor. -/
theorem create (h : w.Accounts others held misuses) :
    (w.create env).2.Accounts others (owned (w.create env).1 ++ held) misuses := by
  have hfree : w.live w.next = false := by
    by_contra hlive
    exact absurd (h.given w.next (by simpa using hlive)).2 (Nat.lt_irrefl _)
  have hpos := h.next_pos
  unfold World.create
  split
  · refine ⟨?_, ?_, ?_, h.misuses_eq⟩
    · rw [owned_of_ne (Nat.ne_of_gt hpos), List.singleton_append]
      exact h.ledger.acquire hfree
    · intro handle hlive
      dsimp only at hlive ⊢
      by_cases heq : handle = w.next
      · subst heq
        exact ⟨(Nat.ne_of_gt hpos), Nat.lt_succ_self _⟩
      · rw [Function.update_of_ne heq] at hlive
        obtain ⟨hne, hlt⟩ := h.given handle hlive
        exact ⟨hne, Nat.lt_succ_of_lt hlt⟩
    · exact Nat.lt_succ_of_lt hpos
  · exact h.congr rfl rfl rfl

theorem answer (h : w.Accounts others held misuses) :
    (w.answer env).2.Accounts others held misuses :=
  h.congr rfl rfl rfl

/-- A destructor, called with the object acquired last. -/
theorem free {handle : ℕ} (h : w.Accounts others (owned handle ++ held) misuses) :
    (w.free handle).Accounts others held misuses := by
  unfold World.free
  by_cases hnull : handle = null
  · rw [if_pos hnull]
    subst hnull
    exact h
  · rw [owned_of_ne hnull, List.singleton_append] at h
    rw [if_neg hnull, if_pos (h.ledger.live_of_mem (by simp))]
    refine ⟨h.ledger.release, ?_, h.next_pos, h.misuses_eq⟩
    intro other hlive
    dsimp only at hlive
    by_cases heq : other = handle
    · subst heq
      simp at hlive
    · rw [Function.update_of_ne heq] at hlive
      exact h.given other hlive

theorem freeField {field : Field ℕ} (hw : field.written = true)
    (h : w.Accounts others (owned field.value ++ held) misuses) :
    (w.freeField field).Accounts others held misuses := by
  unfold World.freeField
  rw [if_neg (by simp [hw])]
  exact h.free

/-- Passing a member that is fit for it changes nothing. -/
theorem pass_eq {field : Field ℕ} (hw : field.written = true)
    (hlive : field.value = null ∨ w.live field.value = true) : w.pass field = w := by
  unfold World.pass
  rw [if_neg (by simp [hw]), if_pos hlive]

theorem passDigest_eq {md : Field (Option Digest)} (hw : md.written = true) :
    w.passDigest md = w := by
  unfold World.passDigest
  rw [if_neg (by simp [hw])]

/-- `out:`. -/
theorem release {l : RsaLocals} (h : w.Accounts others (l.owned ++ held) misuses) :
    (l.release w).Accounts others held misuses := by
  unfold RsaLocals.owned at h
  simp only [List.append_assoc] at h
  exact h.free.free.free.free.free

theorem pushRsaParams (h : w.Accounts others held misuses) :
    (pushRsaParams env w).2.Accounts others held misuses := by
  unfold X509Server.pushRsaParams
  dsimp only
  split
  · exact h.answer env
  · split
    · exact (h.answer env).answer env
    · exact ((h.answer env).answer env).answer env

/-- The preparation of `EVP_PKEY_fromdata` holds what its locals say, wherever it stops. -/
theorem rsaPrepare (h : w.Accounts others held misuses) :
    (rsaPrepare env w).2.2.Accounts others ((rsaPrepare env w).2.1.owned ++ held) misuses := by
  unfold X509Server.rsaPrepare
  dsimp only
  have h1 := h.create env
  generalize w.create env = r1 at h1
  obtain ⟨modulus, w1⟩ := r1
  dsimp only at h1 ⊢
  split
  · rename_i hnull
    subst hnull
    exact h1
  have h2 := h1.create env
  generalize w1.create env = r2 at h2
  obtain ⟨exp, w2⟩ := r2
  dsimp only at h2 ⊢
  split
  · rename_i hnull
    subst hnull
    simpa [RsaLocals.owned] using h2
  have h3 := h2.create env
  generalize w2.create env = r3 at h3
  obtain ⟨rsaBuild, w3⟩ := r3
  dsimp only at h3 ⊢
  split
  · rename_i hnull
    subst hnull
    simpa [RsaLocals.owned] using h3
  have h4 := h3.pushRsaParams env
  generalize X509Server.pushRsaParams env w3 = r4 at h4
  obtain ⟨pushed, w4⟩ := r4
  dsimp only at h4 ⊢
  split
  · simpa [RsaLocals.owned] using h4
  have h5 := h4.create env
  generalize w4.create env = r5 at h5
  obtain ⟨rsaParams, w5⟩ := r5
  dsimp only at h5 ⊢
  split
  · rename_i hnull
    subst hnull
    simpa [RsaLocals.owned] using h5
  have h6 := h5.create env
  generalize w5.create env = r6 at h6
  obtain ⟨ctx, w6⟩ := r6
  dsimp only at h6 ⊢
  split
  · rename_i hnull
    subst hnull
    simpa [RsaLocals.owned] using h6
  · simpa [RsaLocals.owned] using h6.answer env

theorem claim {claimed : List ℕ} (h : w.Accounts others held misuses)
    (hnodup : claimed.Nodup) (hclaimed : ∀ a ∈ claimed, others a) :
    w.Accounts (fun a => others a ∧ a ∉ claimed) (claimed ++ held) misuses :=
  { h with ledger := h.ledger.claim hnodup hclaimed }

/-- Held objects can be left to others for a while. -/
theorem frame_iff {framed : List ℕ} : w.Accounts others (framed ++ held) misuses ↔
    (framed.Nodup ∧ ∀ a ∈ framed, ¬ others a) ∧
      w.Accounts (fun a => others a ∨ a ∈ framed) held misuses := by
  constructor
  · intro h
    obtain ⟨hframed, hledger⟩ := Ledger.frame_iff.mp h.ledger
    exact ⟨hframed, hledger, h.given, h.next_pos, h.misuses_eq⟩
  · rintro ⟨hframed, h⟩
    exact ⟨Ledger.frame_iff.mpr ⟨hframed, h.ledger⟩, h.given, h.next_pos, h.misuses_eq⟩

end World.Accounts

end X509Server
