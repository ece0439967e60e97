import X509Server.Analysis.FieldSpec

/-!
# Everything trusted is signed

The index fields of an accepted certificate lie, in a fixed order, inside the signed range
`[signedDataStart, signedDataEnd)`, except for the signature itself.  And they are a
function of the octets in that range: the fields of a TBS certificate at `start` are those
at 0, translated (`TbsCertificate.fields_shift`), and the fields at 0 are what
`parse_x509`'s middle part computes from the octets alone.
-/

set_option autoImplicit false

namespace X509Server

open Checked ByteWindow Der

/-! ## The fields by name -/

theorem TbsCertificate.fields_eq (t : TbsCertificate) (start s e : ℕ) :
    t.fields start s e = (t.baseFields start s e).withExtensionsOf (t.fields start s e) :=
  (t.fields_frame start s e).symm

theorem Certificate.tbs_window (c : Certificate) :
    window c.encode c.tbsStart c.encode.length = c.content := by
  have h := Reads.of_window_eq (window_full c.encode)
  have hdone := (h.rest_eq_nil_iff le_rfl).mp rfl
  have hcontent := h.content_eq
  rw [hdone, Nat.zero_add] at hcontent
  exact hcontent

theorem Certificate.standsAt (c : Certificate) :
    c.tbsCertificate.StandsAt c.encode c.tbsStart :=
  c.tbsCertificate.standsAt (c.tbs_window.trans (Certificate.content.eq_def c))

/-- The order of the index fields of a TBS certificate. -/
theorem TbsCertificate.indices_ordered (t : TbsCertificate) (start : ℕ) :
    start < t.serialStart start ∧ t.serialStart start ≤ t.serialEnd start ∧
      (t.sigId start).idStart = t.serialEnd start ∧
      (t.sigId start).idEnd < (t.keyId start).idStart ∧
      (t.keyId start).idEnd < t.keyStart start ∧ t.keyStart start ≤ t.keyEnd start ∧
      t.keyEnd start ≤ start + t.encode.length := by
  have hcontent := two_le_headerLength t.content
  have hinfo := two_le_headerLength t.subjectPublicKeyInfo.content
  have hbits := two_le_headerLength (0 :: t.subjectPublicKeyInfo.subjectPublicKey)
  have hend := t.extensionsStart_add start
  have hkey : t.subjectPublicKeyInfo.encode.length =
      headerLength t.subjectPublicKeyInfo.content +
        (t.subjectPublicKeyInfo.algorithm.encode.length +
          (headerLength (0 :: t.subjectPublicKeyInfo.subjectPublicKey) +
            (t.subjectPublicKeyInfo.subjectPublicKey.length + 1))) := by
    simp only [SubjectPublicKeyInfo.encode, length_tlv, SubjectPublicKeyInfo.content,
      List.length_append, encodeBitstring, List.length_cons]
  simp only [extensionsStart, keyEnd, keyInfoStart, sigId, AlgorithmIdentifier.at_idEnd,
    serialEnd, serialStart] at hend
  simp only [serialStart, serialEnd, sigId, keyId, keyStart, keyEnd, keyInfoStart,
    AlgorithmIdentifier.at_idEnd]
  refine ⟨by omega, by omega, rfl, ?_, by omega, by omega, by omega⟩
  show _ < _ + _
  omega

/-- Apart from the extensions' fields, the fields of a certificate are positions. -/
theorem Certificate.fields_eq (c : Certificate) :
    c.fields = (c.tbsCertificate.baseFields c.tbsStart c.sigStart
      c.encode.length).withExtensionsOf c.fields :=
  c.tbsCertificate.fields_eq _ _ _

/-- The signature follows the repeated AlgorithmIdentifier, and ends the certificate. -/
theorem Certificate.sigStart_eq (c : Certificate) :
    c.tbsStart + c.tbsCertificate.encode.length + c.tbsCertificate.signature.encode.length <
        c.sigStart ∧ c.sigStart + c.signatureValue.length = c.encode.length := by
  have hlen := congrArg List.length (Certificate.content.eq_def c)
  have hbits := two_le_headerLength (0 :: c.signatureValue)
  simp only [List.length_append, encodeBitstring, length_tlv derBitstring,
    List.length_cons] at hlen
  simp only [sigStart, tbsStart]
  rw [Certificate.encode, length_tlv]
  omega

/-- The index fields of a certificate, in order. -/
theorem Certificate.fields_ordered (c : Certificate) : c.fields.Ordered c.encode.length := by
  obtain ⟨h1, h2, h3, h4, h5, h6, h7⟩ := c.tbsCertificate.indices_ordered c.tbsStart
  obtain ⟨g1, g2⟩ := c.sigStart_eq
  obtain ⟨-, a2, a3, a4⟩ := c.tbsCertificate.signature.at_ordered
    (c.tbsCertificate.serialEnd c.tbsStart)
  obtain ⟨-, b2, b3, b4⟩ := c.tbsCertificate.subjectPublicKeyInfo.algorithm.at_ordered
    (c.tbsCertificate.keyInfoStart c.tbsStart +
      headerLength c.tbsCertificate.subjectPublicKeyInfo.content)
  have hkeyEnd : c.fields.pubKeyEnd = c.tbsCertificate.keyEnd c.tbsStart := by
    rw [c.fields_eq]
    rfl
  have hsigned : c.fields.signedDataEnd = c.tbsStart + c.tbsCertificate.encode.length := by
    rw [c.fields_eq]
    rfl
  constructor
  · rw [c.fields_eq]
    exact ⟨h1, h2⟩
  · rw [c.fields_eq]
    exact ⟨le_of_eq h3.symm, a2, a3, a4⟩
  · rw [c.fields_eq]
    exact ⟨h4, b2, b3, b4⟩
  · rw [c.fields_eq]
    exact ⟨h5, h6, h7⟩
  · intro hsome
    rcases c.tbsCertificate.skid_cases c.tbsStart c.sigStart c.encode.length with
      ⟨-, hnone, -⟩ | ⟨body, -, hstart, hend, hle, -⟩
    · exact absurd hnone hsome
    · rw [hkeyEnd, hsigned]
      exact ⟨hstart.le, by rw [fields, hend]; exact Nat.le_add_right _ _, hle⟩
  · intro hsome
    rcases c.tbsCertificate.akid_cases c.tbsStart c.sigStart c.encode.length with
      ⟨-, hnone, -⟩ | ⟨body, id, -, -, hstart, hend, hle, -⟩
    · exact absurd hnone hsome
    · rw [hkeyEnd, hsigned]
      exact ⟨hstart.le, by rw [fields, hend]; exact Nat.le_add_right _ _, hle⟩
  · have hsize : c.fields.sigIdEnd - c.fields.sigIdStart =
        c.tbsCertificate.signature.encode.length := by
      rw [c.fields_eq]
      exact Nat.add_sub_cancel_left _ _
    rw [hsize, hsigned, c.fields_eq]
    exact ⟨g1, Nat.le.intro g2, rfl⟩

/-- Index fields in order are ranges. -/
theorem X509Fields.Ordered.within {f : X509Fields} {rawSize : ℕ} (h : f.Ordered rawSize) :
    f.Within rawSize := by
  obtain ⟨s1, s2⟩ := h.serial
  obtain ⟨i1, i2, i3, i4⟩ := h.sigId
  obtain ⟨k1, k2, k3, k4⟩ := h.keyId
  obtain ⟨p1, p2, p3⟩ := h.key
  obtain ⟨g1, g2, g3⟩ := h.signature
  constructor <;> omega

theorem Certificate.fields_within (c : Certificate) : c.fields.Within c.encode.length :=
  c.fields_ordered.within

/-! ## Translation -/

/-- An optional index moved by `d`. -/
def shiftIdx (d i : ℕ) : ℕ := if i = idxNone then idxNone else i + d

/-- The index fields of the TBS certificate moved by `d`. -/
def X509Fields.shift (f : X509Fields) (d : ℕ) : X509Fields :=
  { f with
    sigIdStart := f.sigIdStart + d, sigIdEnd := f.sigIdEnd + d
    sigOidStart := f.sigOidStart + d, sigOidEnd := f.sigOidEnd + d
    pubKeyIdStart := f.pubKeyIdStart + d, pubKeyIdEnd := f.pubKeyIdEnd + d
    pubKeyOidStart := f.pubKeyOidStart + d, pubKeyOidEnd := f.pubKeyOidEnd + d
    pubKeyStart := f.pubKeyStart + d, pubKeyEnd := f.pubKeyEnd + d
    signedDataStart := f.signedDataStart + d, signedDataEnd := f.signedDataEnd + d
    certSerialStart := f.certSerialStart + d, certSerialEnd := f.certSerialEnd + d
    skidStart := shiftIdx d f.skidStart, skidEnd := shiftIdx d f.skidEnd
    akidStart := shiftIdx d f.akidStart, akidEnd := shiftIdx d f.akidEnd }

theorem shiftIdx_of_pos {d i : ℕ} (h : 0 < i) : shiftIdx d i = i + d :=
  if_neg (by simp only [idxNone]; omega)

theorem Extension.apply_shift (x : Extension) (start d : ℕ) (f : X509Fields) :
    x.apply (start + d) (f.shift d) = (x.apply start f).shift d := by
  cases x with
  | basicConstraints body =>
    cases body with
    | notCa => rfl
    | ca o => cases o <;> rfl
  | authorityKeyIdentifier body =>
    obtain ⟨id, issuer, serial⟩ := body
    cases id with
    | none => rfl
    | some id =>
      have hheader := two_le_headerLength id
      simp only [apply, X509Fields.shift, X509Fields.mk.injEq, true_and, and_true]
      constructor
      · rw [shiftIdx_of_pos (i := _ + headerLength id) (by omega)]
        omega
      · rw [shiftIdx_of_pos (i := _ + headerLength id + id.length) (by omega)]
        omega
  | subjectKeyIdentifier body =>
    have hheader := two_le_headerLength body
    simp only [apply, X509Fields.shift, X509Fields.mk.injEq, true_and, and_true]
    constructor
    · rw [shiftIdx_of_pos (i := _ + headerLength body) (by omega)]
      omega
    · rw [shiftIdx_of_pos (i := _ + headerLength body + body.length) (by omega)]
      omega
  | keyUsage critical body => rfl
  | extKeyUsage critical purposes => rfl
  | unrecognized oid value unsupported => rfl

theorem applyExtensions_shift (xs : List Extension) (start d : ℕ) (f : X509Fields) :
    applyExtensions xs (start + d) (f.shift d) = (applyExtensions xs start f).shift d := by
  induction xs generalizing start f with
  | nil => rfl
  | cons x xs ih =>
    rw [applyExtensions, applyExtensions, ← ih, ← x.apply_shift]
    congr 1
    · omega
    · congr 1
      omega

/-- The fields of a TBS certificate at `start` are those at 0, moved. -/
theorem TbsCertificate.fields_shift (t : TbsCertificate) (start s e : ℕ) :
    t.fields start s e = (t.fields 0 s e).shift start := by
  have hbase : t.baseFields start s e = (t.baseFields 0 s e).shift start := by
    have hkey : t.subjectPublicKeyInfo.subjectPublicKey.length ≤ t.keyEnd 0 := by
      have hinfo := length_tlv derSequence t.subjectPublicKeyInfo.content
      have hcontent := congrArg List.length
        (SubjectPublicKeyInfo.content.eq_def t.subjectPublicKeyInfo)
      simp only [List.length_append, encodeBitstring, length_tlv, List.length_cons] at hcontent
      simp only [keyEnd, SubjectPublicKeyInfo.encode]
      omega
    simp only [keyEnd] at hkey
    simp only [baseFields, X509Fields.shift, X509Fields.mk.injEq, shiftIdx, idxNone, if_true,
      true_and, and_true, serialStart, serialEnd, sigId, keyId, keyStart, keyEnd, keyInfoStart,
      AlgorithmIdentifier.at] at hkey ⊢
    omega
  have hfirst : t.firstExtension start = t.firstExtension 0 + start := by
    simp only [firstExtension, firstMember, extensionsStart, keyEnd, keyInfoStart, sigId,
      AlgorithmIdentifier.at_idEnd, serialEnd, serialStart]
    omega
  rw [fields, hbase, hfirst, applyExtensions_shift]
  rfl

/-! ## The signed octets determine the fields -/

theorem relativeIdx_shiftIdx (d i : ℕ) : relativeIdx d (shiftIdx d i) = i := by
  unfold relativeIdx shiftIdx
  by_cases hi : i = idxNone
  · rw [if_pos hi, if_pos rfl, hi]
  · have hpos : i + d ≠ idxNone := by
      simp only [idxNone] at hi ⊢
      omega
    rw [if_neg hi, if_neg hpos, Nat.add_sub_cancel]

theorem X509Fields.relative_shift (f : X509Fields) (d : ℕ) (h : f.signedDataStart = 0) :
    (f.shift d).relative = f.withSignature 0 0 := by
  simp only [relative, shift, h, Nat.zero_add, relativeIdx_shiftIdx, Nat.add_sub_cancel,
    Nat.sub_self, withSignature]

/-- Relative to its start, a certificate's fields are those of the TBS certificate at 0. -/
theorem Certificate.relative_fields (c : Certificate) :
    c.fields.relative = c.tbsCertificate.fields 0 0 0 := by
  have hzero : (c.tbsCertificate.fields 0 c.sigStart c.encode.length).signedDataStart = 0 := by
    rw [c.tbsCertificate.fields_eq]
    rfl
  rw [fields, c.tbsCertificate.fields_shift, X509Fields.relative_shift _ _ hzero,
    c.tbsCertificate.fields_withSignature]

/-- Equal octets, equal fields: both are what the middle part of the parser computes. -/
theorem TbsCertificate.fields_of_encode_eq {t t' : TbsCertificate} (h : t.encode = t'.encode)
    (hlen : t.encode.length < 2 ^ 63) : t.fields 0 0 0 = t'.fields 0 0 0 := by
  have hw : window t.encode 0 t.encode.length = t.encode ++ [] := by
    rw [window_full, List.append_nil]
  have hw' : window t.encode 0 t.encode.length = t'.encode ++ [] := by rw [hw, h]
  have hrun := t.parse_eq (f := t.fields 0 0 0) hw le_rfl hlen
  rw [t'.parse_eq hw' le_rfl hlen] at hrun
  have hsig := congrArg (fun f => X509Fields.withSignature f 0 0)
    (Prod.mk.inj (Except.ok.inj hrun)).2
  simp only [TbsCertificate.fields_withSignature] at hsig
  exact hsig.symm

/-- Equal octets, equal signature algorithm. -/
theorem TbsCertificate.signature_of_encode_eq {t t' : TbsCertificate}
    (h : t.encode = t'.encode) (hlen : t.encode.length < 2 ^ 63) :
    t.signature.encode = t'.signature.encode := by
  have hfields := TbsCertificate.fields_of_encode_eq h hlen
  have hstart := congrArg X509Fields.sigIdStart hfields
  have hend := congrArg X509Fields.sigIdEnd hfields
  simp only [TbsCertificate.fields_sigIdStart, TbsCertificate.fields_sigIdEnd] at hstart hend
  have hw : window t.encode 0 t.encode.length = t.encode ++ [] := by
    rw [window_full, List.append_nil]
  have hw' : window t.encode 0 t.encode.length = t'.encode ++ [] := by rw [hw, h]
  rw [← (t.standsAt hw).sigId, ← (t'.standsAt hw').sigId, hstart, hend]

/-- The signed range shows the TBS certificate. -/
theorem Certificate.window_signed (c : Certificate) :
    window c.encode c.fields.signedDataStart c.fields.signedDataEnd =
      c.tbsCertificate.encode := by
  rw [c.fields_eq]
  exact c.standsAt.whole

theorem Certificate.tbs_length_le (c : Certificate) :
    c.tbsCertificate.encode.length ≤ c.encode.length := by
  have h := c.sigStart_eq
  omega

/-- All the index fields of an accepted certificate lie in the signed range or behind it in
the stated order; and accepted certificates with the same signed octets have the same
fields, up to the signature's range, and differ in nothing but the signature and the length
of the outer SEQUENCE. -/
theorem accepted_fields_signed (raw raw' : Bytes) (f₀ f₀' f f' : X509Fields)
    (hraw : raw.length < 2 ^ 63) (hraw' : raw'.length < 2 ^ 63)
    (hok : parseX509 raw f₀ = .ok f) (hok' : parseX509 raw' f₀' = .ok f') :
    f.Ordered raw.length ∧
      (window raw f.signedDataStart f.signedDataEnd =
          window raw' f'.signedDataStart f'.signedDataEnd →
        f.relative = f'.relative ∧ ∃ signed bits bits',
          raw = tlv derSequence (signed ++ encodeBitstring bits) ∧
            raw' = tlv derSequence (signed ++ encodeBitstring bits')) := by
  obtain ⟨c, rfl, rfl⟩ := (parseX509_ok_iff raw f₀ f hraw).mp hok
  obtain ⟨c', rfl, rfl⟩ := (parseX509_ok_iff raw' f₀' f' hraw').mp hok'
  refine ⟨c.fields_ordered, ?_⟩
  rw [c.window_signed, c'.window_signed]
  intro htbs
  have hlen : c.tbsCertificate.encode.length < 2 ^ 63 :=
    lt_of_le_of_lt c.tbs_length_le hraw
  refine ⟨?_, ?_⟩
  · rw [c.relative_fields, c'.relative_fields,
      TbsCertificate.fields_of_encode_eq htbs hlen]
  · refine ⟨c.tbsCertificate.encode ++ c.tbsCertificate.signature.encode, c.signatureValue,
      c'.signatureValue, ?_, ?_⟩
    · rw [List.append_assoc]
      rfl
    · rw [htbs, TbsCertificate.signature_of_encode_eq htbs hlen, List.append_assoc]
      rfl

/-- Two certificates with one TBS certificate. -/
theorem accepted_fields_signed_ed25519 :
    (ed25519Certificate epoch signingUsage 0).fields.Ordered
        (ed25519Certificate epoch signingUsage 0).encode.length ∧
      (ed25519Certificate epoch signingUsage 0).fields.relative =
          (ed25519Certificate epoch signingUsage 1).fields.relative ∧
        ∃ signed bits bits',
          (ed25519Certificate epoch signingUsage 0).encode =
            tlv derSequence (signed ++ encodeBitstring bits) ∧
          (ed25519Certificate epoch signingUsage 1).encode =
            tlv derSequence (signed ++ encodeBitstring bits') := by
  have h := accepted_fields_signed (ed25519Certificate epoch signingUsage 0).encode
    (ed25519Certificate epoch signingUsage 1).encode
    (ed25519Certificate epoch signingUsage 0).fields
    (ed25519Certificate epoch signingUsage 0).fields
    (ed25519Certificate epoch signingUsage 0).fields
    (ed25519Certificate epoch signingUsage 1).fields (by decide +kernel)
    (by decide +kernel) (by decide +kernel) (by decide +kernel)
  exact ⟨h.1, h.2 (by decide +kernel)⟩

end X509Server
