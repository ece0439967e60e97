import X509Server.Model.Crypto

/-!
# What the OpenSSL calls leave alone

Small lemmas about the state of OpenSSL, one group for each operation: which parts a call
does not touch, and what a successful call establishes.  Destructors and the calls that
only pass a handle never change what a key holds.
-/

set_option autoImplicit false

namespace X509Server

open Checked

namespace World

variable (env : OpenSsl) (w : World)

section Pass

variable (h : Field ℕ)

@[simp] theorem pass_next : (w.pass h).next = w.next := by
  unfold pass
  split
  · rfl
  · split <;> rfl

@[simp] theorem pass_live : (w.pass h).live = w.live := by
  unfold pass
  split
  · rfl
  · split <;> rfl

@[simp] theorem pass_material : (w.pass h).material = w.material := by
  unfold pass
  split
  · rfl
  · split <;> rfl

@[simp] theorem pass_context : (w.pass h).context = w.context := by
  unfold pass
  split
  · rfl
  · split <;> rfl

variable (md : Field (Option Digest))

@[simp] theorem passDigest_next : (w.passDigest md).next = w.next := by
  unfold passDigest
  split <;> rfl

@[simp] theorem passDigest_live : (w.passDigest md).live = w.live := by
  unfold passDigest
  split <;> rfl

@[simp] theorem passDigest_material : (w.passDigest md).material = w.material := by
  unfold passDigest
  split <;> rfl

@[simp] theorem passDigest_context : (w.passDigest md).context = w.context := by
  unfold passDigest
  split <;> rfl

end Pass

section Free

variable (handle : ℕ) (h : Field ℕ)

@[simp] theorem free_next : (w.free handle).next = w.next := by
  unfold free
  split
  · rfl
  · split <;> rfl

@[simp] theorem free_material : (w.free handle).material = w.material := by
  unfold free
  split
  · rfl
  · split <;> rfl

@[simp] theorem freeField_next : (w.freeField h).next = w.next := by
  unfold freeField
  split
  · rfl
  · exact w.free_next _

@[simp] theorem freeField_material : (w.freeField h).material = w.material := by
  unfold freeField
  split
  · rfl
  · exact w.free_material _

end Free

@[simp] theorem answer_material : (w.answer env).2.material = w.material := rfl

@[simp] theorem answer_context : (w.answer env).2.context = w.context := rfl

@[simp] theorem answer_next : (w.answer env).2.next = w.next := rfl

@[simp] theorem answer_live : (w.answer env).2.live = w.live := rfl

@[simp] theorem answer_misuses : (w.answer env).2.misuses = w.misuses := rfl

@[simp] theorem create_material : (w.create env).2.material = w.material := by
  unfold create
  split <;> rfl

@[simp] theorem create_misuses : (w.create env).2.misuses = w.misuses := by
  unfold create
  split <;> rfl

end World

/-! ## Locals of `rsa_extract` -/

@[simp] theorem RsaLocals.release_material (l : RsaLocals) (w : World) :
    (l.release w).material = w.material := by
  simp [RsaLocals.release]

section Calls

variable (env : OpenSsl)

/-! ## Construction -/

/-- A new raw key holds the octets it was made from. -/
theorem evpPkeyNewRawPublicKey_material (type : KeyType) (key : Bytes) (w : World)
    (h : (evpPkeyNewRawPublicKey env type key w).1 ≠ null) :
    (evpPkeyNewRawPublicKey env type key w).2.material
      (evpPkeyNewRawPublicKey env type key w).1 = some (.raw type key) := by
  unfold evpPkeyNewRawPublicKey at h ⊢
  dsimp only at h ⊢
  split at h
  · exact absurd rfl h
  · rename_i hne
    rw [if_neg hne]
    exact Function.update_self _ _ _

/-- What a constructed Ed key is. -/
theorem edConstruct_certOk {type : KeyType} {key : Bytes} {pub : PubKey} {w : World}
    (h : (edConstruct env type key pub w).1 = .certOk) :
    ∃ pkey mdCtx, mdCtx ≠ null ∧
      (edConstruct env type key pub w).2.1 =
        { pub with openssl := ⟨.store pkey, .store mdCtx, .store none⟩ } ∧
      (edConstruct env type key pub w).2.2.material pkey = some (.raw type key) := by
  have hmat := evpPkeyNewRawPublicKey_material env type key w
  unfold edConstruct at h ⊢
  dsimp only at h ⊢
  split at h
  · cases h
  · rename_i hpkey
    rw [if_neg hpkey]
    split at h
    · cases h
    · rename_i hctx
      rw [if_neg hctx]
      exact ⟨_, _, hctx, rfl, by rw [World.create_material]; exact hmat hpkey⟩

/-- A successful `EVP_PKEY_fromdata` leaves a key with the given parameters behind. -/
theorem evpPkeyFromdata_ok (ppkey : Field ℕ) (modulus exponent : Bytes) (w : World)
    (h : (evpPkeyFromdata env ppkey modulus exponent w).1 = true) :
    (evpPkeyFromdata env ppkey modulus exponent w).2.1.value ≠ null ∧
      (evpPkeyFromdata env ppkey modulus exponent w).2.2.material
        (evpPkeyFromdata env ppkey modulus exponent w).2.1.value =
          some (.rsa modulus exponent) := by
  unfold evpPkeyFromdata at h ⊢
  dsimp only at h ⊢
  split at h
  · rename_i hnull
    rw [if_pos hnull]
    split at h
    · cases h
    · rename_i hne
      rw [if_neg hne]
      exact ⟨hne, Function.update_self _ _ _⟩
  · rename_i hnull
    rw [if_neg hnull]
    split at h
    · rename_i hok
      rw [if_pos hok]
      exact ⟨hnull, Function.update_self _ _ _⟩
    · cases h

/-- `rsa_extract` behind its checks: its assertion holds, and a key it hands out has the
given parameters. -/
theorem rsaFromdata_safe (modulus exponent : Bytes) (pub : PubKey) (w : World) :
    Safe (rsaFromdata env modulus exponent pub w) fun r => r.1 = .certOk →
      ∃ pkey : Field ℕ, ∃ mdCtx, mdCtx ≠ null ∧
        r.2.1 = { pub with
          openssl := { pub.openssl with pkey := pkey, mdCtx := .store mdCtx } } ∧
        r.2.2.material pkey.value = some (.rsa modulus exponent) := by
  have hmat := evpPkeyFromdata_ok env pub.openssl.pkey modulus exponent w
  unfold rsaFromdata
  dsimp only
  generalize evpPkeyFromdata env pub.openssl.pkey modulus exponent w = called at hmat
  obtain ⟨ok, pkey, w'⟩ := called
  dsimp only at hmat ⊢
  refine Safe.ite (fun _ => ?_) fun hok => ?_
  · refine Safe.ite (fun _ => ?_) fun _ => ?_
    · rintro ⟨⟩
    · rintro ⟨⟩
  · obtain ⟨hne, hkey⟩ := hmat (by simpa using hok)
    refine Safe.bind (Q := fun _ => True) (by simp [assertThat, hne]) fun _ _ => ?_
    refine Safe.ite (fun hctx => ?_) fun _ => ?_
    · intro _
      exact ⟨pkey, _, hctx, rfl, by rw [World.create_material]; exact hkey⟩
    · rintro ⟨⟩

theorem rsaConstruct_safe (modulus exponent : Bytes) (pub : PubKey) (w : World) :
    Safe (rsaConstruct env modulus exponent pub w) fun r => r.1 = .certOk →
      ∃ pkey : Field ℕ, ∃ mdCtx, mdCtx ≠ null ∧
        r.2.1 = { pub with
          openssl := { pub.openssl with pkey := pkey, mdCtx := .store mdCtx } } ∧
        r.2.2.material pkey.value = some (.rsa modulus exponent) := by
  unfold rsaConstruct
  dsimp only
  refine Safe.ite (fun _ => ?_) fun _ => ?_
  · rintro ⟨⟩
  · refine Safe.bind (rsaFromdata_safe env modulus exponent pub _) ?_
    rintro ⟨code, pub', w'⟩ h hcode
    obtain ⟨pkey, mdCtx, hctx, hpub, hmat⟩ := h hcode
    exact ⟨pkey, mdCtx, hctx, hpub, by rw [RsaLocals.release_material]; exact hmat⟩

/-! ## Verification -/

@[simp] theorem evpDigestVerifyInit_material (mdCtx pkey : Field ℕ)
    (md : Field (Option Digest)) (w : World) :
    (evpDigestVerifyInit env mdCtx md pkey w).2.material = w.material := by
  unfold evpDigestVerifyInit
  dsimp only
  split <;> simp

/-- An initialised context holds the key and the digest. -/
theorem evpDigestVerifyInit_context (mdCtx pkey : Field ℕ) (md : Field (Option Digest))
    (w : World) (h : (evpDigestVerifyInit env mdCtx md pkey w).1 = true) :
    (evpDigestVerifyInit env mdCtx md pkey w).2.context mdCtx.value =
      some (w.material pkey.value, md.value) := by
  unfold evpDigestVerifyInit at h ⊢
  dsimp only at h ⊢
  split at h
  · rename_i hok
    rw [if_pos hok]
    dsimp only
    rw [Function.update_self]
    simp
  · cases h

theorem evpDigestVerify_material {mdCtx : Field ℕ} {sig data : Bytes} {w : World} :
    (evpDigestVerify env mdCtx sig data w).2.material = w.material := by
  unfold evpDigestVerify
  dsimp only
  split <;> exact w.pass_material mdCtx

/-- A verification that succeeds was made with the key and the digest of the context. -/
theorem evpDigestVerify_true {mdCtx : Field ℕ} {sig data : Bytes} {w : World}
    {key : Option KeyMaterial} {md : Option Digest}
    (hctx : w.context mdCtx.value = some (key, md))
    (h : (evpDigestVerify env mdCtx sig data w).1 = true) :
    ∃ k, key = some k ∧ env.verifies k md data sig = true := by
  unfold evpDigestVerify at h
  dsimp only at h
  rw [World.pass_context, hctx] at h
  cases key with
  | none => cases h
  | some k => exact ⟨k, rfl, h⟩

/-- `pub_key_verify` with a key that `pub_key_extract` made: no fault, and only a signature
of the right size that verifies under the key's own material passes. -/
theorem pubKeyVerify_safe {pub : PubKey} (data sig : Bytes) (w : World)
    (halg : pub.algIdx < supportedAlgs.length) (hctx : pub.openssl.mdCtx.value ≠ null) :
    Safe (pubKeyVerify env pub data sig w) fun r => r.2.material = w.material ∧
      (r.1 = true → sig.length = pub.expSigSize ∧ ∃ key,
        w.material pub.openssl.pkey.value = some key ∧
          env.verifies key pub.openssl.md.value data sig = true) := by
  have hcontext := evpDigestVerifyInit_context env pub.openssl.mdCtx pub.openssl.pkey
    pub.openssl.md w
  have hinit := evpDigestVerifyInit_material env pub.openssl.mdCtx pub.openssl.pkey
    pub.openssl.md w
  unfold pubKeyVerify
  refine Safe.ite (fun _ => ⟨rfl, fun h => nomatch h⟩) fun hsize => ?_
  refine Safe.bind (Q := fun _ => True) (by simp [assertThat, halg]) fun _ _ => ?_
  unfold opensslVerify
  refine Safe.ite (fun _ => ⟨rfl, fun h => nomatch h⟩) fun _ => ?_
  refine Safe.bind (Q := fun _ => True) (by simp [assertThat, hctx]) fun _ _ => ?_
  dsimp only
  generalize evpDigestVerifyInit env pub.openssl.mdCtx pub.openssl.md pub.openssl.pkey w =
    called at hcontext hinit
  obtain ⟨ok, w'⟩ := called
  dsimp only at hcontext hinit ⊢
  refine Safe.ite (fun _ => ⟨hinit, fun h => nomatch h⟩) fun hok => ?_
  refine ⟨(evpDigestVerify_material env).trans hinit, fun htrue => ?_⟩
  obtain ⟨key, hkey, hverifies⟩ := evpDigestVerify_true env (hcontext (by simpa using hok)) htrue
  exact ⟨(not_not.mp hsize).symm, key, hkey, hverifies⟩

theorem pubKeyFree_safe {pub : PubKey} (w : World)
    (halg : pub.algIdx < supportedAlgs.length) :
    Safe (pubKeyFree pub w) fun w' => w' = opensslFree pub w := by
  unfold pubKeyFree
  refine Safe.bind (Q := fun _ => True) (by simp [assertThat, halg]) fun _ _ => ?_
  rfl

/-! ## Dead objects -/

variable {w w' : World} {n : ℕ}

theorem World.free_live_self {handle : ℕ} (hne : handle ≠ null) :
    (w.free handle).live handle = false := by
  unfold World.free
  rw [if_neg hne]
  split
  · exact Function.update_self _ _ _
  · rename_i hdead
    simpa using hdead

theorem World.free_live_of_dead {w : World} {handle old : ℕ} (h : w.live old = false) :
    (w.free handle).live old = false := by
  unfold World.free
  split
  · exact h
  · split
    · by_cases heq : old = handle
      · subst heq
        exact Function.update_self _ _ _
      · exact (Function.update_of_ne heq _ _).trans h
    · exact h

/-! ## Answers -/

/-- The calls have been answered, and nothing that was given out before has been touched. -/
structure World.After (w w' : World) (n : ℕ) : Prop where
  calls_eq : w'.calls = w.calls + n
  next_le : w.next ≤ w'.next
  live_eq : ∀ h, h < w.next → w'.live h = w.live h

theorem World.After.refl (w : World) : w.After w 0 := ⟨rfl, Nat.le_refl _, fun _ _ => rfl⟩

theorem World.After.answer (h : w.After w' n) : w.After (w'.answer env).2 (n + 1) :=
  ⟨congrArg (· + 1) h.calls_eq, h.next_le, h.live_eq⟩

theorem World.After.create (h : w.After w' n) : w.After (w'.create env).2 (n + 1) := by
  unfold World.create
  split
  · refine ⟨congrArg (· + 1) h.calls_eq, Nat.le_succ_of_le h.next_le, ?_⟩
    intro handle hlt
    have hne : handle ≠ w'.next := Nat.ne_of_lt (Nat.lt_of_lt_of_le hlt h.next_le)
    rw [← h.live_eq handle hlt]
    exact Function.update_of_ne hne _ _
  · exact ⟨congrArg (· + 1) h.calls_eq, h.next_le, h.live_eq⟩

/-- A constructor returns `NULL` exactly if it fails. -/
theorem World.create_eq_null_iff (hpos : null < w.next) :
    (w.create env).1 = null ↔ env.succeeds w.calls = false := by
  unfold World.create
  split
  · rename_i hok
    exact iff_of_false (Nat.ne_of_gt hpos) (by simp [hok])
  · rename_i hfailed
    exact iff_of_true rfl (by simpa using hfailed)

theorem pushRsaParams_after (h : w.After w' n) (hok : (pushRsaParams env w').1 = true) :
    w.After (pushRsaParams env w').2 (n + 3) := by
  unfold pushRsaParams at hok ⊢
  dsimp only at hok ⊢
  split at hok
  · cases hok
  · rename_i hn
    rw [if_neg hn]
    split at hok
    · cases hok
    · rename_i he
      rw [if_neg he]
      exact ((h.answer env).answer env).answer env

/-- `EVP_PKEY_fromdata` is prepared with nine calls. -/
theorem rsaPrepare_after (hok : (rsaPrepare env w).1 = true) :
    w.After (rsaPrepare env w).2.2 9 := by
  unfold rsaPrepare at hok ⊢
  dsimp only at hok ⊢
  have h1 := (World.After.refl w).create env
  generalize w.create env = r1 at h1 hok
  obtain ⟨modulus, w1⟩ := r1
  dsimp only at h1 hok ⊢
  split at hok
  · cases hok
  rename_i hmodulus
  rw [if_neg hmodulus]
  have h2 := h1.create env
  generalize w1.create env = r2 at h2 hok
  obtain ⟨exp, w2⟩ := r2
  dsimp only at h2 hok ⊢
  split at hok
  · cases hok
  rename_i hexp
  rw [if_neg hexp]
  have h3 := h2.create env
  generalize w2.create env = r3 at h3 hok
  obtain ⟨rsaBuild, w3⟩ := r3
  dsimp only at h3 hok ⊢
  split at hok
  · cases hok
  rename_i hbuild
  rw [if_neg hbuild]
  have h4 := pushRsaParams_after env h3
  generalize pushRsaParams env w3 = r4 at h4 hok
  obtain ⟨pushed, w4⟩ := r4
  dsimp only at h4 hok ⊢
  split at hok
  · cases hok
  rename_i hpushed
  rw [if_neg hpushed]
  have h5 := (h4 (by simpa using hpushed)).create env
  generalize w4.create env = r5 at h5 hok
  obtain ⟨rsaParams, w5⟩ := r5
  dsimp only at h5 hok ⊢
  split at hok
  · cases hok
  rename_i hparams
  rw [if_neg hparams]
  have h6 := h5.create env
  generalize w5.create env = r6 at h6 hok
  obtain ⟨ctx, w6⟩ := r6
  dsimp only at h6 hok ⊢
  split at hok
  · cases hok
  rename_i hctx
  rw [if_neg hctx]
  exact h6.answer env

/-! ## Misuses -/

theorem World.free_misuses_le (w : World) (handle : ℕ) :
    w.misuses.length ≤ (w.free handle).misuses.length := by
  unfold World.free
  split
  · exact Nat.le_refl _
  · split
    · exact Nat.le_refl _
    · simp

theorem World.freeField_misuses_le (w : World) (handle : Field ℕ) :
    w.misuses.length ≤ (w.freeField handle).misuses.length := by
  unfold World.freeField
  split
  · simp
  · exact w.free_misuses_le _

theorem World.pass_misuses_le (w : World) (handle : Field ℕ) :
    w.misuses.length ≤ (w.pass handle).misuses.length := by
  unfold World.pass
  split
  · simp
  · split <;> simp

theorem World.passDigest_misuses_le (w : World) (md : Field (Option Digest)) :
    w.misuses.length ≤ (w.passDigest md).misuses.length := by
  unfold World.passDigest
  split <;> simp

theorem RsaLocals.release_misuses_le (l : RsaLocals) (w : World) :
    w.misuses.length ≤ (l.release w).misuses.length := by
  unfold RsaLocals.release
  calc w.misuses.length ≤ (w.free l.ctx).misuses.length := World.free_misuses_le _ _
    _ ≤ ((w.free l.ctx).free l.rsaParams).misuses.length := World.free_misuses_le _ _
    _ ≤ (((w.free l.ctx).free l.rsaParams).free l.rsaBuild).misuses.length :=
      World.free_misuses_le _ _
    _ ≤ ((((w.free l.ctx).free l.rsaParams).free l.rsaBuild).free l.exp).misuses.length :=
      World.free_misuses_le _ _
    _ ≤ _ := World.free_misuses_le _ _

/-- A member that is not fit for it is not passed without a misuse. -/
theorem World.pass_misuses_lt {handle : Field ℕ}
    (h : ¬ (handle.written = true ∧ (handle.value = null ∨ w.live handle.value = true))) :
    w.misuses.length < (w.pass handle).misuses.length := by
  unfold World.pass
  split
  · simp
  · rename_i hwritten
    split
    · rename_i hfit
      exact absurd ⟨by simpa using hwritten, hfit⟩ h
    · simp

theorem evpPkeyFromdata_misuses (ppkey : Field ℕ) (modulus exponent : Bytes) (w : World) :
    (evpPkeyFromdata env ppkey modulus exponent w).2.2.misuses = (w.pass ppkey).misuses := by
  unfold evpPkeyFromdata
  dsimp only
  split
  · split
    · exact World.create_misuses env _
    · exact World.create_misuses env _
  · split <;> rfl

theorem evpDigestVerifyInit_misuses_le (mdCtx pkey : Field ℕ) (md : Field (Option Digest))
    (w : World) :
    w.misuses.length ≤ (evpDigestVerifyInit env mdCtx md pkey w).2.misuses.length := by
  have hpassed : w.misuses.length ≤ (((w.pass mdCtx).passDigest md).pass pkey).misuses.length :=
    Nat.le_trans (w.pass_misuses_le mdCtx)
      (Nat.le_trans (World.passDigest_misuses_le _ md) (World.pass_misuses_le _ pkey))
  unfold evpDigestVerifyInit
  dsimp only
  split <;> exact hpassed

theorem pubKeyVerify_misuses_le {pub : PubKey} (data sig : Bytes) (w : World)
    (halg : pub.algIdx < supportedAlgs.length) (hctx : pub.openssl.mdCtx.value ≠ null) :
    Safe (pubKeyVerify env pub data sig w) fun r => w.misuses.length ≤ r.2.misuses.length := by
  have hinit := evpDigestVerifyInit_misuses_le env pub.openssl.mdCtx pub.openssl.pkey
    pub.openssl.md w
  unfold pubKeyVerify
  refine Safe.ite (fun _ => Nat.le_refl _) fun _ => ?_
  refine Safe.bind (Q := fun _ => True) (by simp [assertThat, halg]) fun _ _ => ?_
  unfold opensslVerify
  refine Safe.ite (fun _ => Nat.le_refl _) fun _ => ?_
  refine Safe.bind (Q := fun _ => True) (by simp [assertThat, hctx]) fun _ _ => ?_
  generalize evpDigestVerifyInit env pub.openssl.mdCtx pub.openssl.md pub.openssl.pkey w = r
    at hinit
  obtain ⟨ok, w1⟩ := r
  dsimp only at hinit ⊢
  refine Safe.ite (fun _ => hinit) fun _ => ?_
  unfold evpDigestVerify
  dsimp only
  split <;> exact Nat.le_trans hinit (w1.pass_misuses_le _)

end Calls

end X509Server
