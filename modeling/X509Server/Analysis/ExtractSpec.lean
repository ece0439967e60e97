import X509Server.Analysis.SignedSpec
import X509Server.Analysis.WorldSpec
import X509Server.Interface.Trust

/-!
# The checks of crypto.c on an accepted certificate

For the fields of an accepted certificate every range that crypto.c reads lies inside the
certificate, so none of its checks can fault, and each of them is a statement about the
certificate's parts: `edExtract_eq`, `rsaCheck_safe`, `selfSignCheck_eq`,
`selfSignVerify_eq`.
-/

set_option autoImplicit false

namespace X509Server

open Checked ByteWindow Der

/-! ## Ranges -/

/-- `certeq` of two ranges inside the certificate compares the octets they hold. -/
theorem certeq_eq {raw : Bytes} {s0 e0 s1 e1 : ℕ} (h0 : s0 ≤ e0) (he0 : e0 ≤ raw.length)
    (h1 : s1 ≤ e1) (he1 : e1 ≤ raw.length) :
    certeq raw s0 e0 s1 e1 = .ok (decide (window raw s0 e0 = window raw s1 e1)) := by
  unfold certeq
  rw [usub_eq h0, ok_bind, usub_eq h1, ok_bind, memeq_eq (by omega) (by omega),
    show s0 + (e0 - s0) = e0 by omega, show s1 + (e1 - s1) = e1 by omega]

/-- A range given by its end. -/
theorem rawRange_sub {ε : Type} {raw : Bytes} {start stop : ℕ} (h : start ≤ stop)
    (hend : stop ≤ raw.length) :
    (rawRange raw start (stop - start) : Guarded ε Bytes) = .ok (window raw start stop) := by
  rw [rawRange_eq (by omega), show start + (stop - start) = stop by omega]

theorem memeqConst_sub {ε : Type} {raw entry : Bytes} {start stop : ℕ} (h : start ≤ stop)
    (hend : stop ≤ raw.length) :
    (memeqConst entry raw start (stop - start) : Guarded ε Bool) =
      .ok (decide (entry = window raw start stop)) := by
  rw [memeqConst_eq (by omega), show start + (stop - start) = stop by omega]

namespace Certificate

variable (c : Certificate)

/-- The octets at the index fields. -/
structure FieldsShow : Prop where
  sigId : window c.encode c.fields.sigIdStart c.fields.sigIdEnd =
    c.tbsCertificate.signature.encode
  sigOid : window c.encode c.fields.sigOidStart c.fields.sigOidEnd =
    c.tbsCertificate.signature.algorithm
  keyId : window c.encode c.fields.pubKeyIdStart c.fields.pubKeyIdEnd =
    c.keyInfo.algorithm.encode
  keyOid : window c.encode c.fields.pubKeyOidStart c.fields.pubKeyOidEnd =
    c.keyInfo.algorithm.algorithm
  key : window c.encode c.fields.pubKeyStart c.fields.pubKeyEnd = c.keyInfo.subjectPublicKey
  signed : window c.encode c.fields.signedDataStart c.fields.signedDataEnd =
    c.tbsCertificate.encode
  signature : window c.encode c.fields.sigStart c.fields.sigEnd = c.signatureValue

theorem window_signature :
    window c.encode c.sigStart c.encode.length = c.signatureValue := by
  -- the signature is the end of the certificate
  obtain ⟨hd, hhd⟩ : ∃ hd, c.encode = hd ++ c.signatureValue := by
    refine ⟨derSequence :: (lengthOctets c.content.length ++ (c.tbsCertificate.encode ++
      (c.tbsCertificate.signature.encode ++ derBitstring ::
        (lengthOctets (0 :: c.signatureValue).length ++ [0])))), ?_⟩
    simp [Certificate.encode, tlv, Certificate.content, encodeBitstring]
  have hlen := congrArg List.length hhd
  rw [List.length_append] at hlen
  have hstart : c.sigStart = 0 + hd.length := by
    simp only [sigStart]
    omega
  rw [hstart]
  exact (of_window_append ((window_full c.encode).trans hhd)).2

theorem fieldsShow : c.FieldsShow := by
  have h := c.standsAt
  refine ⟨?_, ?_, ?_, ?_, ?_, c.window_signed, ?_⟩
  · rw [c.fields_eq]
    exact h.sigId
  · rw [c.fields_eq]
    exact h.sigOid
  · rw [c.fields_eq]
    exact h.keyId
  · rw [c.fields_eq]
    exact h.keyOid
  · rw [c.fields_eq]
    exact h.key
  · rw [c.fields_eq]
    exact c.window_signature

end Certificate

/-- The parameters are what follows the OID of an AlgorithmIdentifier. -/
theorem AlgorithmIdentifier.window_parameters (a : AlgorithmIdentifier) {raw : Bytes}
    {start : ℕ} (h : window raw (a.at start).idStart (a.at start).idEnd = a.encode) :
    window raw (a.at start).oidEnd (a.at start).idEnd = a.parameters := by
  have hcontent := (Reads.of_window_eq h).content_eq
  have hend : (a.at start).idStart + headerLength a.content + a.content.length =
      (a.at start).idEnd := by
    rw [Nat.add_assoc, ← length_tlv derSequence]
    rfl
  rw [hend] at hcontent
  exact (Reads.of_window hcontent).rest_eq

namespace Certificate

variable (c : Certificate)

theorem window_keyParameters :
    window c.encode c.fields.pubKeyOidEnd c.fields.pubKeyIdEnd =
      c.keyInfo.algorithm.parameters := by
  rw [c.fields_eq]
  exact c.keyInfo.algorithm.window_parameters c.standsAt.keyId

theorem window_sigParameters :
    window c.encode c.fields.sigOidEnd c.fields.sigIdEnd = c.signatureAlgorithm.parameters := by
  rw [c.fields_eq]
  exact c.signatureAlgorithm.window_parameters c.standsAt.sigId

end Certificate

/-! ## Ed25519 and Ed448 -/

section Extract

variable (env : OpenSsl) (c : Certificate)

/-- The OID of the key ends its AlgorithmIdentifier exactly if there are no parameters. -/
theorem Certificate.pubKeyOidEnd_eq_iff :
    c.fields.pubKeyOidEnd = c.fields.pubKeyIdEnd ↔ c.keyInfo.algorithm.parameters = [] := by
  have hlen := congrArg List.length (AlgorithmIdentifier.content.eq_def c.keyInfo.algorithm)
  rw [List.length_append, length_tlv] at hlen
  have hoid : c.fields.pubKeyOidEnd = c.fields.pubKeyIdStart +
      headerLength c.keyInfo.algorithm.content + headerLength c.keyInfo.algorithm.algorithm +
        c.keyInfo.algorithm.algorithm.length := by
    rw [c.fields_eq]
    rfl
  have hid : c.fields.pubKeyIdEnd = c.fields.pubKeyIdStart +
      (headerLength c.keyInfo.algorithm.content + c.keyInfo.algorithm.content.length) := by
    rw [← length_tlv derSequence, c.fields_eq]
    rfl
  rw [hoid, hid, ← List.length_eq_zero_iff]
  omega

/-- `ed_extract` on an accepted certificate. -/
theorem edExtract_eq (type : KeyType) (pub : PubKey) (w : World) :
    edExtract env c.encode c.fields type pub w = .ok
      (if c.keyInfo.algorithm.parameters ≠ [] then (.invalidPubKeyParams, pub, w)
      else if c.signatureAlgorithm.encode ≠ c.keyInfo.algorithm.encode then
        (.invalidSig, pub, w)
      else edConstruct env type c.keyInfo.subjectPublicKey pub w) := by
  obtain ⟨hsig, hsigEnd⟩ := c.fields_within.sigId
  obtain ⟨hkey, hkeyEnd⟩ := c.fields_within.keyId
  obtain ⟨hpub, hpubEnd⟩ := c.fields_within.key
  have hshow := c.fieldsShow
  unfold edExtract
  by_cases hparams : c.keyInfo.algorithm.parameters = []
  · rw [if_neg (not_not.mpr (c.pubKeyOidEnd_eq_iff.mpr hparams)), if_neg (not_not.mpr hparams),
      certeq_eq hsig hsigEnd hkey hkeyEnd, ok_bind, hshow.sigId, hshow.keyId]
    by_cases hsame : c.signatureAlgorithm.encode = c.keyInfo.algorithm.encode
    · have hsame' : c.tbsCertificate.signature.encode = c.keyInfo.algorithm.encode := hsame
      rw [if_neg (by simp [hsame']), if_neg (not_not.mpr hsame), usub_eq hpub, ok_bind,
        rawRange_sub hpub hpubEnd, ok_bind, hshow.key]
    · have hsame' : ¬ c.tbsCertificate.signature.encode = c.keyInfo.algorithm.encode := hsame
      rw [if_pos (by simp [hsame']), if_pos hsame]
  · rw [if_pos (fun h => hparams (c.pubKeyOidEnd_eq_iff.mp h)), if_pos hparams]

/-! ## RSA -/

/-- `parse_null` stays inside its parent. -/
theorem parseNull_safe {raw : Bytes} {idx parentEnd : ℕ} (hend : parentEnd ≤ raw.length)
    (hidx : idx ≤ raw.length) (hraw : raw.length < 2 ^ 63) :
    Safe (parseNull raw idx parentEnd : Crypto _) fun p => p.2 = idx ∨
      p.2 = idx + 2 ∧ window raw idx (idx + 2) = [0x05, 0x00] := by
  unfold parseNull
  rw [uadd_eq (by omega), ok_bind]
  refine Safe.ite (fun _ => Or.inl rfl) fun hfits => ?_
  obtain ⟨identifier, hid, hw⟩ := window_eq_cons (b := raw) (i := idx) (e := idx + 2)
    (by omega) (by omega)
  obtain ⟨length, hlen, hw'⟩ := window_eq_cons (b := raw) (i := idx + 1) (e := idx + 2)
    (by omega) (by omega)
  rw [rawByte_eq hid, ok_bind]
  refine Safe.ite (fun _ => Or.inl rfl) fun h5 => ?_
  rw [uadd_eq (by omega), ok_bind, rawByte_eq hlen, ok_bind]
  refine Safe.ite (fun _ => Or.inl rfl) fun h0 => ?_
  refine Or.inr ⟨rfl, ?_⟩
  rw [hw, hw', not_not.mp h5, not_not.mp h0, window_eq_nil (by omega)]

/-- The digest of a signature algorithm. -/
def digestOf (oid : Bytes) : Option Digest :=
  if rsaSha256Oid = oid then some .sha256
  else if rsaSha384Oid = oid then some .sha384
  else if rsaSha512Oid = oid then some .sha512
  else none

theorem oid_of_digestOf {oid : Bytes} {digest : Digest} (h : digestOf oid = some digest) :
    oid = digest.oid := by
  unfold digestOf at h
  split_ifs at h with h256 h384 h512
  · obtain rfl := Option.some.inj h
    exact h256.symm
  · obtain rfl := Option.some.inj h
    exact h384.symm
  · obtain rfl := Option.some.inj h
    exact h512.symm

theorem rsaDigest_eq :
    rsaDigest c.encode c.fields (c.fields.sigOidEnd - c.fields.sigOidStart) =
      .ok (digestOf c.signatureAlgorithm.algorithm) := by
  obtain ⟨hle, hend⟩ := c.fields_within.sigOid
  have hoid : window c.encode c.fields.sigOidStart c.fields.sigOidEnd =
    c.signatureAlgorithm.algorithm := c.fieldsShow.sigOid
  unfold rsaDigest digestOf
  rw [memeqConst_sub hle hend, memeqConst_sub hle hend, memeqConst_sub hle hend, hoid]
  simp only [ok_bind, decide_eq_true_eq]
  split_ifs <;> rfl

/-- A parser whose code is looked at still does not fault. -/
theorem tryParse_safe {α : Type} {p : Parse α} {Q : α → Prop} (h : Safe p Q) :
    Safe (tryParse p) fun o => ∀ a, o = some a → Q a := by
  cases p with
  | ok a =>
    rintro a' h'
    obtain rfl := Option.some.inj h'
    exact h
  | error s =>
    cases s with
    | code code => exact fun a h' => nomatch h'
    | fault f => exact h

/-- The two INTEGERs are the first members of a SEQUENCE at the start of the key. -/
theorem rsaRanges_safe (hlen : c.encode.length < 2 ^ 63) :
    Safe (rsaRanges c.encode c.fields) fun o => ∀ r, o = some r →
      (r.modulusStart ≤ r.modulusEnd ∧ r.modulusEnd ≤ c.encode.length ∧
        r.expStart ≤ r.expEnd ∧ r.expEnd ≤ c.encode.length) ∧
      ∃ rest, c.keyInfo.subjectPublicKey =
        tlv derSequence (tlv derInteger (window c.encode r.modulusStart r.modulusEnd) ++
          tlv derInteger (window c.encode r.expStart r.expEnd)) ++ rest := by
  obtain ⟨-, hend⟩ := c.fields_within.key
  unfold rsaRanges
  refine Safe.bind (tryParse_safe (parseDataElement_safe hend hlen)) ?_
  rintro (_ | ⟨idx, seqEnd⟩) hseq
  · exact fun r h => nomatch h
  obtain ⟨content, rest, h⟩ := hseq _ rfl
  have hle := h.end_le
  dsimp only at h hle ⊢
  refine Safe.bind (tryParse_safe (parseDataElement_safe (by omega) hlen)) ?_
  rintro (_ | ⟨modulusStart, modulusEnd⟩) hmod
  · exact fun r h => nomatch h
  obtain ⟨modulus, rest', h'⟩ := hmod _ rfl
  have hle' := h'.end_le
  have hmodle := h'.start_le
  dsimp only at h' hle' hmodle ⊢
  refine Safe.bind (tryParse_safe (parseDataElement_safe (by omega) hlen)) ?_
  rintro (_ | ⟨expStart, expEnd⟩) hexp
  · exact fun r h => nomatch h
  obtain ⟨exponent, rest'', h''⟩ := hexp _ rfl
  have hle'' := h''.end_le
  have hexple := h''.start_le
  dsimp only at h'' hle'' hexple ⊢
  refine Safe.ite (fun _ => fun r h => nomatch h) fun heq => ?_
  obtain rfl : expEnd = seqEnd := not_not.mp heq
  rintro r hr
  obtain rfl := Option.some.inj hr
  refine ⟨⟨hmodle, by dsimp only; omega, hexple, by dsimp only; omega⟩, rest, ?_⟩
  have hcontent : content = tlv derInteger modulus ++ tlv derInteger exponent := by
    rw [← h.content_eq, (h'.consumes.trans h''.consumes).all]
  rw [h'.content_eq, h''.content_eq, ← hcontent, ← c.fieldsShow.key, h.window_eq]

/-- The checks of `rsa_extract` on an accepted certificate: they change the digest and the
signature size of the slot only, and those that pass hand over the key's integers.  The
parameters of the key are then `NULL`, or absent. -/
theorem rsaCheck_safe (hlen : c.encode.length < 2 ^ 63) (pub : PubKey) :
    Safe (rsaCheck c.encode c.fields pub) fun p => ∃ md size,
      p.2 = { pub with expSigSize := size, openssl := { pub.openssl with md := md } } ∧
      (∀ code, p.1 = .inl code → code ≠ .certOk) ∧
      ∀ modulus exponent, p.1 = .inr (modulus, exponent) → ∃ digest rest,
        md = .store (some digest) ∧ c.signatureAlgorithm.algorithm = digest.oid ∧
        rsaSigSize modulus.length = some size ∧
        c.keyInfo.subjectPublicKey =
          tlv derSequence (tlv derInteger modulus ++ tlv derInteger exponent) ++ rest ∧
        (c.keyInfo.algorithm.parameters = [] ∨
          c.keyInfo.algorithm.parameters = [0x05, 0x00]) := by
  obtain ⟨-, hkeyEnd⟩ := c.fields_within.keyId
  obtain ⟨-, hoidEnd⟩ := c.fields_within.keyOid
  have hwindow := c.window_keyParameters
  unfold rsaCheck
  refine Safe.bind (parseNull_safe hkeyEnd hoidEnd hlen) ?_
  rintro ⟨code, idx⟩ hnull
  dsimp only at hnull ⊢
  refine Safe.ite (fun _ => ⟨_, _, rfl, by rintro code ⟨⟩; decide, by rintro _ _ ⟨⟩⟩) fun hidx => ?_
  have hparams : c.keyInfo.algorithm.parameters = [] ∨
      c.keyInfo.algorithm.parameters = [0x05, 0x00] := by
    rw [← hwindow]
    rcases hnull with hsame | ⟨hmoved, hoctets⟩
    · exact Or.inl (window_eq_nil (by omega))
    · rw [← hmoved, not_not.mp hidx] at hoctets
      exact Or.inr hoctets
  rw [usub_eq c.fields_within.sigOid.1, ok_bind, rsaDigest_eq, ok_bind]
  cases hdigest : digestOf c.signatureAlgorithm.algorithm with
  | none => exact ⟨_, _, rfl, by rintro code ⟨⟩; decide, by rintro _ _ ⟨⟩⟩
  | some digest =>
    refine Safe.bind (rsaRanges_safe c hlen) ?_
    rintro (_ | r) hr
    · exact ⟨_, _, rfl, by rintro code ⟨⟩; decide, by rintro _ _ ⟨⟩⟩
    obtain ⟨⟨r1, r2, r3, r4⟩, rest, hkey⟩ := hr r rfl
    dsimp only
    rw [usub_eq r1, ok_bind]
    cases hsize : rsaSigSize (r.modulusEnd - r.modulusStart) with
    | none => exact ⟨_, _, rfl, by rintro code ⟨⟩; decide, by rintro _ _ ⟨⟩⟩
    | some size =>
      dsimp only
      rw [usub_eq r3, ok_bind, rawRange_sub r1 r2, ok_bind, rawRange_sub r3 r4, ok_bind, safe_ok]
      refine ⟨_, _, rfl, by rintro code ⟨⟩, ?_⟩
      rintro modulus exponent hinr
      obtain ⟨rfl, rfl⟩ := Prod.mk.inj (Sum.inr.inj hinr)
      exact ⟨digest, rest, rfl, oid_of_digestOf hdigest, by rw [length_window _ r2, hsize], hkey,
        hparams⟩

end Extract

end X509Server
