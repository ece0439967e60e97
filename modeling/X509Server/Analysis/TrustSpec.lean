import X509Server.Analysis.ExtractSpec
import X509Server.Analysis.UsageSpec
import X509Server.Interface.Purposes

/-!
# What the extraction accepts

The tests of `extract_self_sign_for_code_sign` read flags and indices.  For an accepted
certificate each of them is traced back to the extension that wrote it, with
`TbsCertificate.fields_component` for the flags and `skid_cases`, `akid_cases` for the key
identifiers.  Then the extraction itself is walked through once, in `extract_safe`: it does
not fault, and a key it hands out belongs to a certificate that is `Trusted`.
-/

set_option autoImplicit false

namespace X509Server

open Checked ByteWindow Der

/-! ## Flags of extensions -/

/-- Only basicConstraints writes the flag of a certification authority. -/
theorem Extension.keyCertSign_apply (x : Extension) (start : ℕ) (f : X509Fields)
    (h : x.oid ≠ basicConstraintOid) : (x.apply start f).keyCertSign = f.keyCertSign := by
  exact apply_component X509Fields.keyCertSign basicConstraintOid
    (fun hne => absurd rfl hne) (fun _ _ _ _ => rfl)
    (fun _ _ _ _ => rfl) (fun _ _ _ => rfl) (fun _ _ _ => rfl) x start f h

/-- Only keyUsage writes the flag of its presence. -/
theorem Extension.hasKeyUsage_apply (x : Extension) (start : ℕ) (f : X509Fields)
    (h : x.oid ≠ keyUsageOid) : (x.apply start f).hasKeyUsage = f.hasKeyUsage := by
  exact apply_component X509Fields.hasKeyUsage keyUsageOid (fun _ _ _ _ => rfl) (fun _ _ _ _ => rfl)
    (fun _ _ _ _ => rfl) (fun hne => absurd rfl hne) (fun _ _ _ => rfl) x start f h

theorem Extension.eq_of_oid_basicConstraint {x : Extension} (h : x.oid = basicConstraintOid) :
    ∃ body, x = .basicConstraints body := by
  cases x with
  | basicConstraints body => exact ⟨body, rfl⟩
  | unrecognized oid value unsupported =>
    exact absurd (by rw [show oid = basicConstraintOid from h]; decide) unsupported
  | _ => exact absurd h (by simp only [oid]; decide)

theorem Extension.eq_of_oid_extKeyUsage {x : Extension} (h : x.oid = extKeyUsageOid) :
    ∃ critical purposes, x = .extKeyUsage critical purposes := by
  cases x with
  | extKeyUsage critical purposes => exact ⟨critical, purposes, rfl⟩
  | unrecognized oid value unsupported =>
    exact absurd (by rw [show oid = extKeyUsageOid from h]; decide) unsupported
  | _ => exact absurd h (by simp only [oid]; decide)

/-- The high half of the word. -/
def X509Fields.purposeBits (f : X509Fields) (j : ℕ) : Bool :=
  decide (16 ≤ j) && f.keyUsageFlags.toNat.testBit j

theorem KeyUsage.flags_testBit_of_le (k : KeyUsage) {j : ℕ} (hj : 16 ≤ j) :
    k.flags.toNat.testBit j = false := by
  rw [k.flags_testBit, toNat_testBit_of_le _ (by omega), toNat_testBit_of_le _ (by omega),
    Bool.and_false]
  rfl

/-- Only extended key usage writes the high half of the word. -/
theorem Extension.purposeBits_apply (x : Extension) (start : ℕ) (f : X509Fields)
    (h : x.oid ≠ extKeyUsageOid) : (x.apply start f).purposeBits = f.purposeBits := by
  refine apply_component X509Fields.purposeBits extKeyUsageOid (fun _ _ _ _ => rfl)
    (fun _ _ _ _ => rfl) (fun _ _ _ _ => rfl) ?_ (fun hne => absurd rfl hne) x start f h
  intro _ f body
  funext j
  unfold X509Fields.purposeBits
  by_cases hj : 16 ≤ j
  · rw [UInt32.toNat_or, Nat.testBit_or, body.flags_testBit_of_le hj, Bool.or_false]
  · simp only [hj, decide_false, Bool.false_and]

/-- The word behind a list of key purposes: a bit comes from the word before it or from one
of the purposes. -/
theorem purposeFlags_testBit_eq (purposes : List Bytes) (flags : UInt32) (j : ℕ) :
    (purposeFlags purposes flags).toNat.testBit j =
      (flags.toNat.testBit j || purposes.any fun p => (purposeFlagOf p).toNat.testBit j) := by
  unfold purposeFlags
  induction purposes generalizing flags with
  | nil => simp
  | cons p ps ih =>
    rw [List.foldl_cons, ih, UInt32.toNat_or, Nat.testBit_or, List.any_cons, Bool.or_assoc]

/-- A bit that belongs to one last octet belongs to one purpose of the arc. -/
theorem purposeFlagOf_testBit_iff {bit : ℕ} {n : UInt8}
    (h : ∀ last, (purposeFlag last).toNat.testBit bit = true ↔ last = n) (purpose : Bytes) :
    (purposeFlagOf purpose).toNat.testBit bit = true ↔ purpose = idKp n := by
  unfold purposeFlagOf
  constructor
  · intro hbit
    split at hbit
    · rename_i hshape
      obtain ⟨hlen, htake⟩ := hshape
      have hne : purpose ≠ [] := by
        rintro rfl
        exact absurd hlen (by decide)
      have hlast := (h _).mp hbit
      rw [List.getLastD_eq_getLast?, List.getLast?_eq_getLast_of_ne_nil hne, Option.getD_some]
        at hlast
      rw [← List.dropLast_append_getLast hne, hlast, List.dropLast_eq_take, hlen, htake]
      rfl
    · rw [UInt32.toNat_zero, Nat.zero_testBit] at hbit
      cases hbit
  · rintro rfl
    rw [if_pos ⟨rfl, rfl⟩]
    exact (h n).mpr rfl

/-- The bit of code signing belongs to one last octet. -/
theorem purposeFlag_codeSigning (last : UInt8) :
    (purposeFlag last).toNat.testBit 19 = true ↔ last = 3 := by
  revert last
  apply forall_octet
  decide +kernel

/-- A key purpose with the bit of code signing is the one of code signing. -/
theorem eq_codeSigningOid {p : Bytes} (h : (purposeFlagOf p).toNat.testBit 19 = true) :
    p = codeSigningOid :=
  (purposeFlagOf_testBit_iff purposeFlag_codeSigning p).mp h

namespace Certificate

variable (c : Certificate)

/-- The flag of a certification authority comes from basicConstraints. -/
theorem authority_of_keyCertSign (h : c.fields.keyCertSign = true) :
    ∃ x ∈ c.extensions, x.critical = true ∧ ∃ pathLen,
      x = .basicConstraints (.ca pathLen) := by
  rcases c.tbsCertificate.fields_component c.tbsStart Extension.keyCertSign_apply c.sigStart
    c.encode.length with ⟨-, heq⟩ | ⟨x, hx, hoid, place, g, -, -, -, -, heq⟩
  · exact absurd (heq.symm.trans h) (by simp [TbsCertificate.baseFields])
  · obtain ⟨body, rfl⟩ := Extension.eq_of_oid_basicConstraint hoid
    cases body with
    | notCa => exact absurd (heq.symm.trans h) (by simp [Extension.apply])
    | ca pathLen => exact ⟨_, hx, rfl, pathLen, rfl⟩

theorem keyUsage_of_hasKeyUsage (h : c.fields.hasKeyUsage = true) :
    ∃ critical body, .keyUsage critical body ∈ c.extensions := by
  rcases c.tbsCertificate.fields_component c.tbsStart Extension.hasKeyUsage_apply c.sigStart
    c.encode.length with ⟨-, heq⟩ | ⟨x, hx, hoid, place, g, -, -, -, -, -⟩
  · exact absurd (heq.symm.trans h) (by simp [TbsCertificate.baseFields])
  · obtain ⟨critical, body, rfl⟩ := Extension.eq_of_oid_keyUsage hoid
    exact ⟨critical, body, hx⟩

/-- The bit of code signing comes from an extended key usage that lists code signing. -/
theorem codeSigning_of_flag (h : c.fields.keyUsageFlags.toNat.testBit 19 = true) :
    ∃ critical purposes, .extKeyUsage critical purposes ∈ c.extensions ∧
      codeSigningOid ∈ purposes := by
  rcases c.tbsCertificate.fields_component c.tbsStart Extension.purposeBits_apply c.sigStart
    c.encode.length with ⟨-, heq⟩ | ⟨x, hx, hoid, place, g, hg, -, -, -, heq⟩
  · have hbit := congrFun heq 19
    simp only [X509Fields.purposeBits, Nat.reduceLeDiff, decide_true, Bool.true_and] at hbit
    exact absurd (hbit.symm.trans h) (by simp [TbsCertificate.baseFields])
  · obtain ⟨critical, purposes, rfl⟩ := Extension.eq_of_oid_extKeyUsage hoid
    have hbit := congrFun heq 19
    have hbase := congrFun hg 19
    simp only [X509Fields.purposeBits, Nat.reduceLeDiff, decide_true, Bool.true_and,
      Extension.apply, purposeFlags_testBit_eq] at hbit hbase
    have hzero : g.keyUsageFlags.toNat.testBit 19 = false :=
      hbase.trans (Nat.zero_testBit 19)
    rw [hzero, Bool.false_or] at hbit
    obtain ⟨p, hp, hflag⟩ := List.any_eq_true.mp (hbit.symm.trans h)
    exact ⟨critical, purposes, hx, eq_codeSigningOid hflag ▸ hp⟩

end Certificate

/-! ## The checks -/

section Extract

variable (env : OpenSsl) (c : Certificate)

/-- The comparison of the key identifiers. -/
theorem keyIdsMatch_safe :
    Safe (keyIdsMatch c.encode c.fields) fun same => same = true ↔ c.KeyIdsAgree := by
  have ho := c.fields_ordered
  obtain ⟨g1, g2, g3⟩ := ho.signature
  have hne {place : ℕ} (h : c.tbsCertificate.keyEnd c.tbsStart < place) : place ≠ idxNone := by
    simp only [idxNone]
    omega
  unfold keyIdsMatch
  rcases c.tbsCertificate.skid_cases c.tbsStart c.sigStart c.encode.length with
    ⟨hskid, hskidNone, -⟩ | ⟨id, hskid, hskidStart, -, -, hskidShow⟩
  · have hs : decide (c.fields.skidStart ≠ idxNone) = false :=
      decide_eq_false (not_not.mpr hskidNone)
    rw [hs]
    rcases c.tbsCertificate.akid_cases c.tbsStart c.sigStart c.encode.length with
      ⟨hakid, hakidNone, -⟩ | ⟨body, id, hakid, hid, hakidStart, -, -, -⟩
    · have ha : decide (c.fields.akidStart ≠ idxNone) = false :=
        decide_eq_false (not_not.mpr hakidNone)
      rw [ha, if_neg (not_not.mpr rfl), if_neg (by decide), safe_ok]
      exact iff_of_true rfl (Or.inl ⟨fun id hmem => hskid _ hmem rfl, hakid⟩)
    · have ha : decide (c.fields.akidStart ≠ idxNone) = true :=
        decide_eq_true (hne hakidStart)
      rw [ha, if_pos (by decide), safe_ok]
      refine iff_of_false (by decide) ?_
      rintro (⟨-, hnone⟩ | ⟨id', -, hmem, -, -⟩)
      · exact absurd (hid.symm.trans (hnone body hakid)) (by simp)
      · exact hskid _ hmem rfl
  · have hs : decide (c.fields.skidStart ≠ idxNone) = true := decide_eq_true (hne hskidStart)
    rw [hs]
    rcases c.tbsCertificate.akid_cases c.tbsStart c.sigStart c.encode.length with
      ⟨hakid, hakidNone, -⟩ | ⟨body, id', hakid, hid, hakidStart, -, -, hakidShow⟩
    · have ha : decide (c.fields.akidStart ≠ idxNone) = false :=
        decide_eq_false (not_not.mpr hakidNone)
      rw [ha, if_pos (by decide), safe_ok]
      refine iff_of_false (by decide) ?_
      rintro (⟨hnone, -⟩ | ⟨id', body, -, hmem, hid⟩)
      · exact hnone id hskid
      · exact absurd (hid.symm.trans (hakid body hmem)) (by simp)
    · have ha : decide (c.fields.akidStart ≠ idxNone) = true :=
        decide_eq_true (hne hakidStart)
      obtain ⟨-, s1, s2⟩ := ho.skid (hne hskidStart)
      obtain ⟨-, a1, a2⟩ := ho.akid (hne hakidStart)
      rw [ha, if_neg (not_not.mpr rfl), if_pos rfl,
        certeq_eq s1 (by omega) a1 (by omega), safe_ok, decide_eq_true_eq]
      have hskidWindow : window c.encode c.fields.skidStart c.fields.skidEnd = id :=
        hskidShow _ c.standsAt
      have hakidWindow : window c.encode c.fields.akidStart c.fields.akidEnd = id' :=
        hakidShow _ c.standsAt
      rw [hskidWindow, hakidWindow]
      constructor
      · rintro rfl
        exact Or.inr ⟨id, body, hskid, hakid, hid⟩
      · rintro (⟨hnone, -⟩ | ⟨id'', body', hskid', hakid', hid'⟩)
        · exact absurd hskid (hnone id)
        · have hskidSame := List.inj_on_of_nodup_map c.tbsCertificate.nodup_oids hskid hskid' rfl
          have hakidSame := List.inj_on_of_nodup_map c.tbsCertificate.nodup_oids hakid hakid' rfl
          cases hskidSame
          cases hakidSame
          exact Option.some.inj (hid'.symm.trans hid)

/-- The checks in front of the key: they pass exactly inside the validity period, for a
certification authority whose key identifiers agree and whose usage is admitted. -/
theorem selfSignCheck_safe (now : ℤ) :
    Safe (selfSignCheck c.encode c.fields now) fun o => o ≠ some .certOk ∧ (o = none ↔
      (c.fields.notBefore ≤ now ∧ now ≤ c.fields.notAfter) ∧ c.fields.keyCertSign = true ∧
        c.KeyIdsAgree ∧ usageAdmitted c.fields = true) := by
  unfold selfSignCheck
  refine Safe.ite (fun h => ⟨by decide, iff_of_false (by decide) ?_⟩) fun hafter => ?_
  · rintro ⟨⟨-, hle⟩, -⟩
    omega
  refine Safe.ite (fun h => ⟨by decide, iff_of_false (by decide) ?_⟩) fun hbefore => ?_
  · rintro ⟨⟨hle, -⟩, -⟩
    omega
  refine Safe.ite (fun h => ⟨by decide, iff_of_false (by decide) ?_⟩) fun hca => ?_
  · rintro ⟨-, htrue, -⟩
    exact absurd (h.symm.trans htrue) (by decide)
  refine Safe.bind (keyIdsMatch_safe c) fun same hsame => ?_
  refine Safe.ite (fun h => ⟨by decide, iff_of_false (by decide) ?_⟩) fun hagree => ?_
  · rintro ⟨-, -, hids, -⟩
    exact absurd (h.symm.trans (hsame.mpr hids)) (by decide)
  refine Safe.ite (fun h => ⟨by decide, iff_of_false (by decide) ?_⟩) fun husage => ?_
  · rintro ⟨-, -, -, htrue⟩
    exact absurd (h.symm.trans htrue) (by decide)
  refine ⟨by decide, iff_of_true rfl ⟨⟨by omega, by omega⟩, ?_, ?_, ?_⟩⟩
  · simpa using hca
  · exact hsame.mp (by simpa using hagree)
  · simpa using husage

/-! ## The key -/

/-- What `pub_key_extract` leaves in a slot: an entry of the table, a context, and a key that
is the certificate's. -/
structure Certificate.Extracted (pub : PubKey) (w : World) : Prop where
  algIdx : pub.algIdx < supportedAlgs.length
  mdCtx : pub.openssl.mdCtx.value ≠ null
  key : ∃ key, w.material pub.openssl.pkey.value = some key ∧
    (c.EdKey ed25519Oid .ed25519 64 pub key ∨ c.EdKey ed448Oid .ed448 114 pub key ∨
      c.RsaKey pub key)

/-- The Ed extraction behind a matching OID. -/
theorem edExtract_safe {oid : Bytes} (hoid : oid = c.keyInfo.algorithm.algorithm)
    (type : KeyType) (pub : PubKey) (w : World) :
    Safe (edExtract env c.encode c.fields type pub w) fun r => r.1 = .certOk →
      r.2.1.algIdx = pub.algIdx ∧ r.2.1.openssl.mdCtx.value ≠ null ∧
        ∃ key, r.2.2.material r.2.1.openssl.pkey.value = some key ∧
          c.EdKey oid type pub.expSigSize r.2.1 key := by
  rw [edExtract_eq, safe_ok]
  split
  · rintro ⟨⟩
  · rename_i hparams
    split
    · rintro ⟨⟩
    · rename_i hsame
      intro hok
      obtain ⟨pkey, mdCtx, hctx, hpub, hmat⟩ := edConstruct_certOk env hok
      rw [hpub]
      exact ⟨rfl, hctx, _, hmat, hoid.symm, not_not.mp hparams, not_not.mp hsame, rfl, rfl, rfl⟩

/-- The RSA extraction behind a matching OID. -/
theorem rsaExtract_safe (hlen : c.encode.length < 2 ^ 63)
    (hoid : rsaOid = c.keyInfo.algorithm.algorithm) (pub : PubKey) (w : World) :
    Safe (rsaExtract env c.encode c.fields pub w) fun r => r.1 = .certOk →
      r.2.1.algIdx = pub.algIdx ∧ r.2.1.openssl.mdCtx.value ≠ null ∧
        ∃ key, r.2.2.material r.2.1.openssl.pkey.value = some key ∧ c.RsaKey r.2.1 key := by
  unfold rsaExtract
  refine Safe.bind (rsaCheck_safe c hlen pub) ?_
  rintro ⟨result, pub'⟩ ⟨md, size, rfl, hcode, hkey⟩
  cases result with
  | inl code => exact fun h => absurd h (hcode code rfl)
  | inr octets =>
    obtain ⟨modulus, exponent⟩ := octets
    obtain ⟨digest, rest, rfl, hdigest, hsize, hkeyEq, -⟩ := hkey modulus exponent rfl
    refine (rsaConstruct_safe env modulus exponent _ w).mono ?_
    rintro ⟨code, pub'', w'⟩ h hok
    obtain ⟨pkey, mdCtx, hctx, rfl, hmat⟩ := h hok
    exact ⟨rfl, hctx, _, hmat, hoid.symm, ⟨digest, hdigest, rfl⟩,
      ⟨modulus, exponent, rest, hkeyEq, hsize, rfl⟩⟩

/-- One entry of the table. -/
theorem extractByAlg_cons (pub : PubKey) (w : World) (idx : ℕ) (alg : SupportedAlg)
    (algs : List SupportedAlg) :
    extractByAlg env c.encode c.fields pub w idx (alg :: algs) =
      if alg.oid = c.keyInfo.algorithm.algorithm then
        alg.extractKey env c.encode c.fields { pub with algIdx := idx } w
      else extractByAlg env c.encode c.fields pub w (idx + 1) algs := by
  obtain ⟨hle, hend⟩ := c.fields_within.keyOid
  rw [extractByAlg, usub_eq hle, ok_bind, memeqConst_sub hle hend, ok_bind, c.fieldsShow.keyOid]
  by_cases h : alg.oid = c.keyInfo.algorithm.algorithm
  · rw [if_pos (decide_eq_true h), if_pos h]
  · rw [if_neg (by simp [h]), if_neg h]

/-- An entry is found by the OID of the key. -/
theorem oid_found_iff (oid : Bytes) :
    (∃ size, usub c.fields.pubKeyOidEnd c.fields.pubKeyOidStart = (.ok size : Crypto ℕ) ∧
      memeqConst oid c.encode c.fields.pubKeyOidStart size = (.ok true : Crypto Bool)) ↔
      oid = c.keyInfo.algorithm.algorithm := by
  obtain ⟨hle, hend⟩ := c.fields_within.keyOid
  have hcompare : memeqConst oid c.encode c.fields.pubKeyOidStart
      (c.fields.pubKeyOidEnd - c.fields.pubKeyOidStart) =
        (.ok (decide (oid = c.keyInfo.algorithm.algorithm)) : Crypto Bool) := by
    rw [memeqConst_sub hle hend, c.fieldsShow.keyOid]
  constructor
  · rintro ⟨size, hsize, hfound⟩
    rw [usub_eq hle] at hsize
    obtain rfl := Except.ok.inj hsize
    rw [hcompare] at hfound
    exact of_decide_eq_true (Except.ok.inj hfound)
  · intro hoid
    exact ⟨_, usub_eq hle, by rw [hcompare, decide_eq_true hoid]⟩

theorem pubKeyExtract_safe (hlen : c.encode.length < 2 ^ 63) (pub : PubKey) (w : World) :
    Safe (pubKeyExtract env c.encode c.fields pub w) fun r => r.1 = .certOk →
      c.Extracted r.2.1 r.2.2 := by
  unfold pubKeyExtract supportedAlgs
  rw [extractByAlg_cons]
  refine Safe.ite (fun hoid => ?_) fun _ => ?_
  · refine (edExtract_safe env c hoid .ed25519 _ w).mono fun r h hok => ?_
    obtain ⟨halg, hctx, key, hmat, hkey⟩ := h hok
    exact ⟨halg.trans_lt (show 0 < 3 by decide), hctx, key, hmat, Or.inl hkey⟩
  rw [extractByAlg_cons]
  refine Safe.ite (fun hoid => ?_) fun _ => ?_
  · refine (edExtract_safe env c hoid .ed448 _ w).mono fun r h hok => ?_
    obtain ⟨halg, hctx, key, hmat, hkey⟩ := h hok
    exact ⟨halg.trans_lt (show 1 < 3 by decide), hctx, key, hmat, Or.inr (Or.inl hkey)⟩
  rw [extractByAlg_cons]
  refine Safe.ite (fun hoid => ?_) fun _ => ?_
  · refine (rsaExtract_safe env c hlen hoid _ w).mono fun r h hok => ?_
    obtain ⟨halg, hctx, key, hmat, hkey⟩ := h hok
    exact ⟨halg.trans_lt (show 2 < 3 by decide), hctx, key, hmat, Or.inr (Or.inr hkey)⟩
  · rintro ⟨⟩

/-- The certificate's own signature is checked over its tbsCertificate. -/
theorem selfSignVerify_eq (pub : PubKey) (w : World) :
    selfSignVerify env c.encode c.fields pub w = (do
      let (ok, w) ← pubKeyVerify env pub c.tbsCertificate.encode c.signatureValue w
      if ok then .ok (.certOk, { pub with expiry := c.fields.notAfter }, w)
      else do
        let w ← pubKeyFree pub w
        .ok (.invalidSig, pub, w)) := by
  obtain ⟨hsigned, hsignedEnd⟩ := c.fields_within.signed
  obtain ⟨hsig, hsigEnd⟩ := c.fields_within.signature
  unfold selfSignVerify
  rw [usub_eq hsigned, ok_bind, usub_eq hsig, ok_bind, rawRange_sub hsigned hsignedEnd, ok_bind,
    rawRange_sub hsig hsigEnd, ok_bind, c.fieldsShow.signed, c.fieldsShow.signature]

/-- The certificate's own signature, checked with the extracted key. -/
theorem selfSignVerify_safe {pub : PubKey} {w : World} (hpub : c.Extracted pub w) :
    Safe (selfSignVerify env c.encode c.fields pub w) fun r => r.1 = .certOk →
      r.2.1 = { pub with expiry := c.fields.notAfter } ∧ r.2.2.material = w.material ∧
        c.signatureValue.length = pub.expSigSize ∧ ∃ key,
          w.material pub.openssl.pkey.value = some key ∧
            env.verifies key pub.openssl.md.value c.tbsCertificate.encode
              c.signatureValue = true := by
  rw [selfSignVerify_eq]
  refine Safe.bind (pubKeyVerify_safe env _ _ w hpub.algIdx hpub.mdCtx) ?_
  rintro ⟨ok, w'⟩ ⟨hmat, hverified⟩
  dsimp only
  refine Safe.ite (fun hok => fun _ => ⟨rfl, hmat, hverified hok⟩) fun _ => ?_
  refine Safe.bind (pubKeyFree_safe w' hpub.algIdx) fun _ _ => ?_
  rintro ⟨⟩

/-- The usage test asks for the presence of both extensions and for the bit of code
signing. -/
theorem usageAdmitted_codeSigning {f : X509Fields} (h : usageAdmitted f = true) :
    f.hasKeyUsage = true ∧ f.keyUsageFlags.toNat.testBit 19 = true := by
  simp only [usageAdmitted, Bool.and_eq_true, decide_eq_true_eq] at h
  obtain ⟨⟨hkey, -⟩, hmask⟩ := h
  refine ⟨hkey, (and_flag_ne_zero_iff (show keyUsageFlagCodeSigning.toNat = 2 ^ 19 from rfl)).mp ?_⟩
  have hflag : f.keyUsageFlags &&& keyUsageFlagCodeSigning =
      usageMask &&& keyUsageFlagCodeSigning := by
    rw [← hmask, UInt32.and_assoc]
    rfl
  rw [hflag]
  decide

/-- The key `extract_self_sign_for_code_sign` hands out for an accepted certificate: it does
not fault, the certificate is trusted, the time lies in its validity period, and the slot has
an entry of the table. -/
theorem extract_safe (hlen : c.encode.length < 2 ^ 63) (now : ℤ) (pub : PubKey) (w : World) :
    Safe (extractSelfSignForCodeSign env c.encode c.fields now pub w) fun r =>
      r.1 = .certOk → c.Trusted env r.2.1 r.2.2 ∧
        (c.fields.notBefore ≤ now ∧ now ≤ c.fields.notAfter) ∧
        r.2.1.algIdx < supportedAlgs.length := by
  unfold extractSelfSignForCodeSign
  refine Safe.bind (selfSignCheck_safe c now) ?_
  rintro (_ | code) ⟨hcode, hcheck⟩
  · obtain ⟨hperiod, hca, hids, husage⟩ := hcheck.mp rfl
    refine Safe.bind (pubKeyExtract_safe env c hlen pub w) ?_
    rintro ⟨code, pub', w'⟩ hextract
    dsimp only at hextract ⊢
    refine Safe.ite (fun hne => fun h => absurd h hne) fun hok => ?_
    have hextracted := hextract (not_not.mp hok)
    refine (selfSignVerify_safe env c hextracted).mono fun r h hr => ?_
    obtain ⟨hpub, hmat, hsize, key, hkey, hverifies⟩ := h hr
    obtain ⟨key', hkey', hkind⟩ := hextracted.key
    obtain rfl : key = key' := Option.some.inj (hkey.symm.trans hkey')
    obtain ⟨hhas, hsigning⟩ := usageAdmitted_codeSigning husage
    refine ⟨⟨c.authority_of_keyCertSign hca, c.keyUsage_of_hasKeyUsage hhas,
      c.codeSigning_of_flag hsigning, hids, rfl, ?_, ?_⟩, hperiod, ?_⟩
    · rw [hpub, hmat]
      refine ⟨key, hkey, ?_, hsize, hverifies⟩
      rcases hkind with h | h | h
      · exact Or.inl ⟨h.algorithm, h.parameters, h.same, h.md, h.expSigSize, h.material⟩
      · exact Or.inr (Or.inl ⟨h.algorithm, h.parameters, h.same, h.md, h.expSigSize, h.material⟩)
      · exact Or.inr (Or.inr ⟨h.algorithm, h.md, h.material⟩)
    · rw [hpub, c.fields_eq]
      rfl
    · rw [hpub]
      exact hextracted.algIdx
  · exact fun h => absurd (congrArg some h) hcode

end Extract

/-! ## From the octets -/

/-- On octets of any kind the parser neither runs out of its buffers nor wraps an index nor
fails an assertion, and neither does the extraction on the fields it returns. -/
theorem pipeline_never_faults (raw : Bytes) (f₀ : X509Fields) (hraw : raw.length < 2 ^ 63) :
    (∀ fault, parseX509 raw f₀ ≠ .error (.fault fault)) ∧
      ∀ f, parseX509 raw f₀ = .ok f → ∀ env now pub w fault,
        extractSelfSignForCodeSign env raw f now pub w ≠ .error (.fault fault) := by
  refine ⟨(parseX509_safe raw f₀ hraw).ne_fault, ?_⟩
  intro f hok env now pub w fault
  obtain ⟨c, rfl, rfl⟩ := (parseX509_ok_iff raw f₀ f hraw).mp hok
  exact (extract_safe env c hraw now pub w).ne_fault fault

/-- The extraction on a code signing certificate. -/
theorem pipeline_never_faults_ed25519 :
    (∀ fault, parseX509 (ed25519Certificate epoch signingUsage 0).encode
        (ed25519Certificate epoch signingUsage 0).fields ≠ .error (.fault fault)) ∧
      ∀ env now pub w fault, extractSelfSignForCodeSign env
        (ed25519Certificate epoch signingUsage 0).encode
        (ed25519Certificate epoch signingUsage 0).fields now pub w ≠ .error (.fault fault) := by
  have h := pipeline_never_faults (ed25519Certificate epoch signingUsage 0).encode
    (ed25519Certificate epoch signingUsage 0).fields (by decide +kernel)
  exact ⟨h.1, h.2 _ (by decide +kernel)⟩

/-- Whatever octets the parser and the extraction accept are those of a certificate, and the
certificate is trusted. -/
theorem accepted_trusted (env : OpenSsl) (raw : Bytes) (f₀ f : X509Fields) (now : ℤ)
    (pub pub' : PubKey) (w w' : World) (hraw : raw.length < 2 ^ 63)
    (hok : parseX509 raw f₀ = .ok f)
    (hextract : extractSelfSignForCodeSign env raw f now pub w = .ok (.certOk, pub', w')) :
    pub'.expiry = f.notAfter ∧ (∃ c : Certificate, c.encode = raw) ∧
      ∀ c : Certificate, c.encode = raw → c.Trusted env pub' w' := by
  have trusted (c : Certificate) (hc : c.encode = raw) :
      f = c.fields ∧ c.Trusted env pub' w' := by
    subst hc
    rw [parseX509_encode c f₀ hraw] at hok
    obtain rfl := Except.ok.inj hok
    exact ⟨rfl, ((extract_safe env c hraw now pub w).of_ok hextract rfl).1⟩
  obtain ⟨c, hc⟩ := (parseX509_accepts_iff raw f₀ hraw).mp ⟨f, hok⟩
  obtain ⟨rfl, hc'⟩ := trusted c hc
  refine ⟨?_, ⟨c, hc⟩, fun c hc => (trusted c hc).2⟩
  rw [hc'.expiry, c.fields_eq]
  rfl

/-- A code that a computation of crypto.c returns. -/
def extractedCode (r : Crypto Extraction) : Option ExtractCode :=
  match r with
  | .ok (code, _) => some code
  | .error _ => none

theorem eq_ok_of_extractedCode {r : Crypto Extraction} (code : ExtractCode)
    (h : extractedCode r = some code) : ∃ pub w, r = .ok (code, pub, w) := by
  match r, h with
  | .ok (_, pub, w), rfl => exact ⟨pub, w, rfl⟩

theorem accepted_trusted_ed25519 :
    ∃ pub w, pub.expiry = (ed25519Certificate epoch signingUsage 0).fields.notAfter ∧
      (∃ c : Certificate, c.encode = (ed25519Certificate epoch signingUsage 0).encode) ∧
      ∀ c : Certificate, c.encode = (ed25519Certificate epoch signingUsage 0).encode →
        c.Trusted .accepting pub w := by
  obtain ⟨pub, w, h⟩ := eq_ok_of_extractedCode .certOk
    (r := extractSelfSignForCodeSign .accepting
      (ed25519Certificate epoch signingUsage 0).encode
      (ed25519Certificate epoch signingUsage 0).fields 0 .unwritten .initial) (by decide +kernel)
  exact ⟨pub, w, accepted_trusted .accepting _
    (ed25519Certificate epoch signingUsage 0).fields _ 0 .unwritten pub .initial w
    (by decide +kernel) (by decide +kernel) h⟩

end X509Server
