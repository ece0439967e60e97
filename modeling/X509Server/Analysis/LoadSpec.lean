import X509Server.Analysis.LedgerSpec
import X509Server.Analysis.TrustSpec
import X509Server.Interface.Slots

/-!
# Loading keys

What an extraction does to the objects of OpenSSL, on success and on failure.  The slot of
a rejected certificate keeps its old handles; all that is needed of them is that they are
none of the handles others hold (`PubKey.Apart`), so that the next certificate can do no
harm to the keys in use.
-/

set_option autoImplicit false

namespace X509Server

open Checked Ledgers Runs

/-! ## Slots -/

/-- If the slot's `pkey` has been written, it is not an object of others. -/
def PubKey.Apart (pub : PubKey) (others : ℕ → Prop) : Prop :=
  pub.openssl.pkey.written = true → ¬ others pub.openssl.pkey.value

/-- A slot that can be used: all its members have been written, and its algorithm is one of
the table. -/
structure PubKey.Ready (pub : PubKey) : Prop where
  algIdx : pub.algIdx < supportedAlgs.length
  pkey : pub.openssl.pkey.written = true
  mdCtx : pub.openssl.mdCtx.written = true
  md : pub.openssl.md.written = true

/-- The state behind an extraction: the objects of others are untouched, the slot's are not
among them, and on success both of its objects are held. -/
structure Settled (others : ℕ → Prop) (misuses : List Misuse) (r : Extraction) : Prop where
  accounts : ∃ held, r.2.2.Accounts others held misuses ∧
    (r.1 = .certOk → r.2.1.Ready ∧ ∃ rest, held.Perm (r.2.1.handles ++ rest))
  apart : r.2.1.Apart others

section Extract

variable (env : OpenSsl) {w : World} {others : ℕ → Prop} {held : List ℕ}
  {misuses : List Misuse}

/-- An extraction that has not touched slot and world, or only what is apart. -/
theorem Settled.of_accounts {code : ExtractCode} {pub : PubKey} (hcode : code ≠ .certOk)
    (h : w.Accounts others held misuses) (hpub : pub.Apart others) :
    Settled others misuses (code, pub, w) :=
  ⟨⟨held, h, fun hok => absurd hok hcode⟩, hpub⟩

theorem PubKey.apart_of_mem {pub : PubKey} (h : w.Accounts others held misuses)
    (hmem : pub.openssl.pkey.value ∈ held) : pub.Apart others :=
  fun _ => h.ledger.disjoint _ hmem

/-! ## Ed25519 and Ed448 -/

theorem evpPkeyNewRawPublicKey_accounts (type : KeyType) (key : Bytes)
    (h : w.Accounts others held misuses) :
    (evpPkeyNewRawPublicKey env type key w).2.Accounts others
      (owned (evpPkeyNewRawPublicKey env type key w).1 ++ held) misuses := by
  have hcreate := h.create env
  unfold evpPkeyNewRawPublicKey
  dsimp only
  split
  · rename_i hnull
    rw [hnull] at hcreate
    exact hcreate
  · exact hcreate.congr rfl rfl rfl

theorem edConstruct_settled {type : KeyType} {key : Bytes} {pub : PubKey}
    (h : w.Accounts others held misuses) (hpub : pub.Apart others)
    (halg : pub.algIdx < supportedAlgs.length) :
    Settled others misuses (edConstruct env type key pub w) := by
  have h1 := evpPkeyNewRawPublicKey_accounts env type key h
  unfold edConstruct
  generalize evpPkeyNewRawPublicKey env type key w = r1 at h1
  obtain ⟨pkey, w1⟩ := r1
  dsimp only at h1 ⊢
  split
  · rename_i hnull
    rw [hnull] at h1
    exact .of_accounts (by decide) h1 hpub
  rename_i hpkey
  have h2 := h1.create env
  generalize w1.create env = r2 at h2
  obtain ⟨mdCtx, w2⟩ := r2
  dsimp only at h2 ⊢
  rw [owned_of_ne hpkey] at h2
  split
  · refine .of_accounts (by decide) h2 (PubKey.apart_of_mem h2 ?_)
    simp [Field.store]
  · rename_i hctx
    rw [owned_of_ne hctx] at h2
    refine ⟨⟨_, h2, fun _ => ⟨⟨halg, rfl, rfl, rfl⟩, held, ?_⟩⟩, PubKey.apart_of_mem h2 ?_⟩
    · exact List.Perm.swap pkey mdCtx held
    · simp [Field.store]

/-! ## RSA -/

/-- `EVP_PKEY_fromdata` with a member that is fit for it: what the member holds behind the
call is `NULL` or held. -/
theorem evpPkeyFromdata_accounts {ppkey : Field ℕ} (modulus exponent : Bytes)
    (h : w.Accounts others held misuses) (hw : ppkey.written = true)
    (hmem : ppkey.value = null ∨ ppkey.value ∈ held) :
    ∃ held', (evpPkeyFromdata env ppkey modulus exponent w).2.2.Accounts others held' misuses ∧
      (evpPkeyFromdata env ppkey modulus exponent w).2.1.written = true ∧
      ((evpPkeyFromdata env ppkey modulus exponent w).2.1.value = null ∨
        (evpPkeyFromdata env ppkey modulus exponent w).2.1.value ∈ held') := by
  have hpass : w.pass ppkey = w :=
    World.Accounts.pass_eq hw (hmem.imp_right h.ledger.live_of_mem)
  unfold evpPkeyFromdata
  dsimp only
  rw [hpass]
  split
  · have hcreate := h.create env
    generalize w.create env = r at hcreate
    obtain ⟨handle, w1⟩ := r
    dsimp only at hcreate ⊢
    split
    · rename_i hnull
      rw [hnull] at hcreate
      exact ⟨held, hcreate, rfl, Or.inl rfl⟩
    · rename_i hne
      rw [owned_of_ne hne] at hcreate
      exact ⟨handle :: held, hcreate.congr rfl rfl rfl, rfl, Or.inr (by simp [Field.store])⟩
  · have hanswer := h.answer env
    generalize w.answer env = r at hanswer
    obtain ⟨ok, w1⟩ := r
    dsimp only at hanswer ⊢
    split
    · exact ⟨held, hanswer.congr rfl rfl rfl, hw, hmem⟩
    · exact ⟨held, hanswer, hw, hmem⟩

theorem rsaFromdata_settled {modulus exponent : Bytes} {pub : PubKey}
    (h : w.Accounts others held misuses) (halg : pub.algIdx < supportedAlgs.length)
    (hmd : pub.openssl.md.written = true) (hw : pub.openssl.pkey.written = true)
    (hmem : pub.openssl.pkey.value = null ∨ pub.openssl.pkey.value ∈ held) :
    Safe (rsaFromdata env modulus exponent pub w) (Settled others misuses) := by
  obtain ⟨held', h1, hw1, hmem1⟩ := evpPkeyFromdata_accounts env modulus exponent h hw hmem
  have hok := evpPkeyFromdata_ok env pub.openssl.pkey modulus exponent w
  unfold rsaFromdata
  dsimp only
  generalize evpPkeyFromdata env pub.openssl.pkey modulus exponent w = called at h1 hw1 hmem1 hok
  obtain ⟨ok, pkey, w1⟩ := called
  dsimp only at h1 hw1 hmem1 hok ⊢
  have hapart : ¬ others pkey.value := by
    rcases hmem1 with hnull | hmem1
    · rw [hnull]
      exact h1.not_others_null
    · exact h1.ledger.disjoint _ hmem1
  refine Safe.ite (fun _ => ?_) fun hsuccess => ?_
  · refine Safe.ite (fun hne => ?_) fun _ => ?_
    · have hheld := hmem1.resolve_left hne
      have h2 := h1.perm (List.perm_cons_erase hheld)
      rw [← List.singleton_append, ← owned_of_ne hne] at h2
      exact .of_accounts (by decide) (h2.freeField hw1) fun _ => hapart
    · exact .of_accounts (by decide) h1 fun _ => hapart
  · obtain ⟨hne, -⟩ := hok (by simpa using hsuccess)
    refine Safe.bind (Q := fun _ => True) (by simp [assertThat, hne]) fun _ _ => ?_
    have h2 := h1.create env
    generalize w1.create env = r2 at h2
    obtain ⟨mdCtx, w2⟩ := r2
    dsimp only at h2 ⊢
    refine Safe.ite (fun hctx => ?_) fun _ => ?_
    · rw [owned_of_ne hctx] at h2
      have hheld := hmem1.resolve_left hne
      refine ⟨⟨_, h2, fun _ => ⟨⟨halg, hw1, rfl, hmd⟩, held'.erase pkey.value, ?_⟩⟩,
        fun _ => hapart⟩
      exact ((List.perm_cons_erase hheld).cons mdCtx).trans (List.Perm.swap _ _ _)
    · exact .of_accounts (by decide) h2 fun _ => hapart

/-- The OpenSSL part of `rsa_extract`: what it acquired on the way is gone. -/
theorem rsaConstruct_settled {modulus exponent : Bytes} {pub : PubKey}
    (h : w.Accounts others held misuses) (hpub : pub.Apart others)
    (halg : pub.algIdx < supportedAlgs.length) (hmd : pub.openssl.md.written = true)
    (husable : (rsaPrepare env w).1 = true → pub.openssl.pkey.written = true ∧
      (pub.openssl.pkey.value = null ∨ pub.openssl.pkey.value ∈ held)) :
    Safe (rsaConstruct env modulus exponent pub w) (Settled others misuses) := by
  have h1 := h.rsaPrepare env
  unfold rsaConstruct
  generalize rsaPrepare env w = prepared at h1 husable
  obtain ⟨ready, locals, w1⟩ := prepared
  dsimp only at h1 husable ⊢
  refine Safe.ite (fun _ => .of_accounts (by decide) h1.release hpub) fun hready => ?_
  obtain ⟨hw, hmem⟩ := husable (by simpa using hready)
  -- the locals are framed off while the key is made
  obtain ⟨hframed, h2⟩ := World.Accounts.frame_iff.mp h1
  refine Safe.bind (rsaFromdata_settled env h2 halg hmd hw hmem) ?_
  rintro ⟨code, pub', w2⟩ ⟨⟨held', h3, hok⟩, hapart⟩
  have h4 := World.Accounts.frame_iff.mpr ⟨hframed, h3⟩
  exact ⟨⟨held', h4.release, hok⟩, fun hwritten hothers => hapart hwritten (Or.inl hothers)⟩

/-! ## Verification and release -/

/-- Using a slot that is ready, with its objects held. -/
theorem pubKeyVerify_accounts {pub : PubKey} {data sig : Bytes} {rest : List ℕ}
    (h : w.Accounts others (pub.handles ++ rest) misuses) (hpub : pub.Ready) :
    Safe (pubKeyVerify env pub data sig w) fun r =>
      r.2.Accounts others (pub.handles ++ rest) misuses := by
  have hpkey := h.ledger.live_of_mem (a := pub.openssl.pkey.value) (by simp [PubKey.handles])
  have hctx := h.ledger.live_of_mem (a := pub.openssl.mdCtx.value) (by simp [PubKey.handles])
  have hne : pub.openssl.mdCtx.value ≠ null :=
    h.ne_null_of_mem (by simp [PubKey.handles])
  have hpassCtx {w' : World} (hlive : w'.live = w.live) : w'.pass pub.openssl.mdCtx = w' :=
    World.Accounts.pass_eq hpub.mdCtx (Or.inr (by rw [hlive, hctx]))
  unfold pubKeyVerify
  refine Safe.ite (fun _ => h) fun _ => ?_
  refine Safe.bind (Q := fun _ => True) (by simp [assertThat, hpub.algIdx]) fun _ _ => ?_
  unfold opensslVerify
  refine Safe.ite (fun _ => h) fun _ => ?_
  refine Safe.bind (Q := fun _ => True) (by simp [assertThat, hne]) fun _ _ => ?_
  unfold evpDigestVerifyInit
  dsimp only
  rw [hpassCtx rfl, World.Accounts.passDigest_eq hpub.md,
    World.Accounts.pass_eq hpub.pkey (Or.inr hpkey)]
  have h1 := h.answer env
  have hlive := w.answer_live env
  generalize w.answer env = r at h1 hlive
  obtain ⟨ok, w1⟩ := r
  dsimp only at h1 hlive ⊢
  split
  · refine Safe.ite (fun _ => h1.congr rfl rfl rfl) fun _ => ?_
    unfold evpDigestVerify
    dsimp only
    rw [hpassCtx (by exact hlive)]
    split
    · exact h1.congr rfl rfl rfl
    · exact h1.congr rfl rfl rfl
  · exact Safe.ite (fun _ => h1) fun hfalse => absurd rfl hfalse

theorem pubKeyFree_accounts {pub : PubKey} {rest : List ℕ}
    (h : w.Accounts others (pub.handles ++ rest) misuses) (hpub : pub.Ready) :
    Safe (pubKeyFree pub w) fun w' => w'.Accounts others rest misuses := by
  have hpkey : pub.openssl.pkey.value ≠ null := h.ne_null_of_mem (by simp [PubKey.handles])
  have hctx : pub.openssl.mdCtx.value ≠ null := h.ne_null_of_mem (by simp [PubKey.handles])
  refine (pubKeyFree_safe w hpub.algIdx).mono ?_
  rintro w' rfl
  unfold opensslFree
  have h1 : w.Accounts others (owned pub.openssl.pkey.value ++
      (owned pub.openssl.mdCtx.value ++ rest)) misuses := by
    rw [owned_of_ne hpkey, owned_of_ne hctx]
    exact h
  exact (h1.freeField hpub.pkey).freeField hpub.mdCtx

/-! ## The extraction -/

variable (c : Certificate) {pub : PubKey}

theorem rsaExtract_settled (hlen : c.encode.length < 2 ^ 63)
    (h : w.Accounts others held misuses) (hpub : pub.Apart others)
    (halg : pub.algIdx < supportedAlgs.length)
    (husable : (∃ octets pub', rsaCheck c.encode c.fields pub = .ok (.inr octets, pub')) →
      (rsaPrepare env w).1 = true → pub.openssl.pkey.written = true ∧
        (pub.openssl.pkey.value = null ∨ pub.openssl.pkey.value ∈ held)) :
    Safe (rsaExtract env c.encode c.fields pub w) (Settled others misuses) := by
  obtain ⟨⟨result, pub'⟩, hcheck, md, size, hpub', hcode, hkey⟩ :=
    (rsaCheck_safe c hlen pub).exists_ok
  dsimp only at hpub' hcode hkey
  subst hpub'
  unfold rsaExtract
  rw [hcheck, ok_bind]
  cases result with
  | inl code => exact .of_accounts (hcode code rfl) h hpub
  | inr octets =>
    obtain ⟨modulus, exponent⟩ := octets
    obtain ⟨digest, rest, rfl, -, -, -⟩ := hkey modulus exponent rfl
    exact rsaConstruct_settled env h hpub halg rfl (husable ⟨_, _, hcheck⟩)

theorem edExtract_settled {type : KeyType} (h : w.Accounts others held misuses)
    (hpub : pub.Apart others) (halg : pub.algIdx < supportedAlgs.length) :
    Safe (edExtract env c.encode c.fields type pub w) (Settled others misuses) := by
  rw [edExtract_eq, safe_ok]
  split
  · exact .of_accounts (by decide) h hpub
  · split
    · exact .of_accounts (by decide) h hpub
    · exact edConstruct_settled env h hpub halg

theorem pubKeyExtract_settled (hlen : c.encode.length < 2 ^ 63)
    (h : w.Accounts others held misuses) (hpub : pub.Apart others)
    (husable : rsaOid = c.keyInfo.algorithm.algorithm →
      (∃ octets pub', rsaCheck c.encode c.fields { pub with algIdx := 2 } =
        .ok (.inr octets, pub')) →
      (rsaPrepare env w).1 = true → pub.openssl.pkey.written = true ∧
        (pub.openssl.pkey.value = null ∨ pub.openssl.pkey.value ∈ held)) :
    Safe (pubKeyExtract env c.encode c.fields pub w) (Settled others misuses) := by
  unfold pubKeyExtract supportedAlgs
  rw [extractByAlg_cons]
  refine Safe.ite (fun _ => ?_) fun _ => ?_
  · exact edExtract_settled env c h hpub (show 0 < 3 by decide)
  rw [extractByAlg_cons]
  refine Safe.ite (fun _ => ?_) fun _ => ?_
  · exact edExtract_settled env c h hpub (show 1 < 3 by decide)
  rw [extractByAlg_cons]
  refine Safe.ite (fun hoid => ?_) fun _ => ?_
  · exact rsaExtract_settled env c hlen h hpub (show 2 < 3 by decide) (husable hoid)
  · exact .of_accounts (by decide) h hpub

theorem selfSignVerify_settled (h : w.Accounts others held misuses) (hready : pub.Ready)
    {rest : List ℕ} (hperm : held.Perm (pub.handles ++ rest)) :
    Safe (selfSignVerify env c.encode c.fields pub w) (Settled others misuses) := by
  have hheld := h.perm hperm
  have hapart : ¬ others pub.openssl.pkey.value :=
    hheld.ledger.disjoint _ (by simp [PubKey.handles])
  rw [selfSignVerify_eq]
  refine Safe.bind (pubKeyVerify_accounts env hheld hready) ?_
  rintro ⟨ok, w1⟩ h1
  dsimp only at h1 ⊢
  refine Safe.ite (fun _ => ?_) fun _ => ?_
  · exact ⟨⟨_, h1, fun _ => ⟨⟨hready.algIdx, hready.pkey, hready.mdCtx, hready.md⟩,
      rest, List.Perm.refl _⟩⟩, fun _ => hapart⟩
  · refine Safe.bind (pubKeyFree_accounts h1 hready) fun w2 h2 => ?_
    exact .of_accounts (by decide) h2 fun _ => hapart

/-- The certificates and slots that come to `EVP_PKEY_fromdata`. -/
theorem reachesFromdata_iff (now : ℤ) : ReachesFromdata env c.encode c.fields now pub w ↔
    selfSignCheck c.encode c.fields now = .ok none ∧
      rsaOid = c.keyInfo.algorithm.algorithm ∧
      (∃ octets pub', rsaCheck c.encode c.fields { pub with algIdx := 2 } =
        .ok (.inr octets, pub')) ∧
      (rsaPrepare env w).1 = true := by
  rw [← oid_found_iff]
  constructor
  · rintro ⟨hadmitted, halg, hchecked, hprepared⟩
    exact ⟨hadmitted, halg, hchecked, hprepared⟩
  · rintro ⟨hadmitted, halg, hchecked, hprepared⟩
    exact ⟨hadmitted, halg, hchecked, hprepared⟩

/-- The extraction on an accepted certificate, with a slot that is fit for the certificate if
it is an RSA certificate. -/
theorem extract_settled (hlen : c.encode.length < 2 ^ 63) (now : ℤ)
    (h : w.Accounts others held misuses) (hpub : pub.Apart others)
    (husable : ReachesFromdata env c.encode c.fields now pub w →
      pub.openssl.pkey.written = true ∧
        (pub.openssl.pkey.value = null ∨ pub.openssl.pkey.value ∈ held)) :
    Safe (extractSelfSignForCodeSign env c.encode c.fields now pub w)
      (Settled others misuses) := by
  obtain ⟨o, hcheck, hne, -⟩ := (selfSignCheck_safe c now).exists_ok
  unfold extractSelfSignForCodeSign
  rw [hcheck, ok_bind]
  cases o with
  | some code =>
    exact .of_accounts (fun hcode => hne (congrArg some hcode)) h hpub
  | none =>
    refine Safe.bind (pubKeyExtract_settled env c hlen h hpub fun hoid hchecked hprepared =>
      husable ((reachesFromdata_iff env c now).mpr ⟨hcheck, hoid, hchecked, hprepared⟩)) ?_
    rintro ⟨code, pub', w'⟩ hsettled
    dsimp only
    refine Safe.ite (fun _ => hsettled) fun hok => ?_
    obtain ⟨⟨held', h', hready⟩, -⟩ := hsettled
    obtain ⟨hready, rest, hperm⟩ := hready (not_not.mp hok)
    exact selfSignVerify_settled env c h' hready hperm

/-- `read_cert`. -/
theorem readCert_settled (file : CertFile) (h : w.Accounts others held misuses)
    (hpub : pub.Apart others) (hallowed : ReadAllowed env file pub w)
    (hheld : w.live pub.openssl.pkey.value = true → pub.openssl.pkey.written = true →
      pub.openssl.pkey.value ∈ held) :
    Safe (readCert env file pub w) fun r =>
      ∃ code, (r.1 = true ↔ code = .certOk) ∧ Settled others misuses (code, r.2) := by
  have rejected : ∃ code, (false = true ↔ code = ExtractCode.certOk) ∧
      Settled others misuses (code, pub, w) :=
    ⟨.unsupportedAlg, by decide, .of_accounts (by decide) h hpub⟩
  unfold readCert
  cases hcontents : file.contents with
  | none => exact rejected
  | some raw =>
    have hlen := file.size_lt raw (by simp [hcontents])
    dsimp only
    refine Safe.ite (fun _ => rejected) fun _ => ?_
    cases hparse : parseX509 raw .zero with
    | error stop =>
      cases stop with
      | code code => exact rejected
      | fault fault => exact absurd hparse ((parseX509_safe raw .zero hlen).ne_fault fault)
    | ok fields =>
      obtain ⟨c, rfl, rfl⟩ := (parseX509_ok_iff raw .zero fields hlen).mp hparse
      rw [show tryParse (.ok c.fields : Parse X509Fields) = .ok (some c.fields) from rfl, ok_bind]
      refine Safe.bind (extract_settled env c hlen file.now h hpub fun hreaches => ?_) ?_
      · obtain ⟨hw, hlive⟩ := hallowed _ _ hcontents hparse hreaches
        exact ⟨hw, hlive.imp_right fun hlive => hheld hlive hw⟩
      · rintro ⟨code, pub', w'⟩ hsettled
        exact ⟨code, by simp, hsettled⟩

end Extract

end X509Server
