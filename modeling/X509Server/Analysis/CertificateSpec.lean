import X509Server.Analysis.NameSpec
import X509Server.Analysis.ExtensionSpec

/-!
# `parse_x509` decodes certificates

`parseX509_safe` and `parseX509_encode` are the two halves of one statement: a run of
`parse_x509` never faults, and it returns `PARSE_OK` exactly on the encodings of
`Certificate`, with `Certificate.fields`.  The contents of `*ret_fields` before the call
do not appear in the result.
-/

set_option autoImplicit false

namespace X509Server

open Checked ByteWindow Der

/-! ## What the extensions leave alone -/

/-- `f` with the fields the extension handlers write taken from `g`. -/
def X509Fields.withExtensionsOf (f g : X509Fields) : X509Fields :=
  { f with
    skidStart := g.skidStart, skidEnd := g.skidEnd
    akidStart := g.akidStart, akidEnd := g.akidEnd
    keyCertSign := g.keyCertSign, pathLenConstraint := g.pathLenConstraint
    hasKeyUsage := g.hasKeyUsage, hasExtKeyUsage := g.hasExtKeyUsage
    keyUsageFlags := g.keyUsageFlags }

/-- `f` with another signature range. -/
def X509Fields.withSignature (f : X509Fields) (sigStart sigEnd : ℕ) : X509Fields :=
  { f with sigStart, sigEnd }

theorem Extension.apply_frame (x : Extension) (start : ℕ) (f : X509Fields) :
    f.withExtensionsOf (x.apply start f) = x.apply start f := by
  cases x with
  | basicConstraints body =>
    cases body with
    | notCa => rfl
    | ca o => cases o <;> rfl
  | authorityKeyIdentifier body =>
    obtain ⟨id, issuer, serial⟩ := body
    cases id <;> rfl
  | subjectKeyIdentifier body => rfl
  | keyUsage critical body => rfl
  | extKeyUsage critical purposes => rfl
  | unrecognized oid value unsupported => rfl

/-- Extensions write extension fields only. -/
theorem applyExtensions_frame (xs : List Extension) (start : ℕ) (f : X509Fields) :
    f.withExtensionsOf (applyExtensions xs start f) = applyExtensions xs start f := by
  induction xs generalizing start f with
  | nil => rfl
  | cons x xs ih =>
    rw [applyExtensions, ← ih]
    conv_lhs => rw [← x.apply_frame]
    conv_rhs => rw [← x.apply_frame]
    rfl

theorem Extension.apply_withSignature (x : Extension) (start s e : ℕ) (f : X509Fields) :
    (x.apply start f).withSignature s e = x.apply start (f.withSignature s e) := by
  cases x with
  | basicConstraints body =>
    cases body with
    | notCa => rfl
    | ca o => cases o <;> rfl
  | authorityKeyIdentifier body =>
    obtain ⟨id, issuer, serial⟩ := body
    cases id <;> rfl
  | subjectKeyIdentifier body => rfl
  | keyUsage critical body => rfl
  | extKeyUsage critical purposes => rfl
  | unrecognized oid value unsupported => rfl

theorem applyExtensions_withSignature (xs : List Extension) (start s e : ℕ)
    (f : X509Fields) :
    (applyExtensions xs start f).withSignature s e =
      applyExtensions xs start (f.withSignature s e) := by
  induction xs generalizing start f with
  | nil => rfl
  | cons x xs ih => rw [applyExtensions, ih, x.apply_withSignature, applyExtensions]

theorem TbsCertificate.fields_withSignature (t : TbsCertificate) (start s e s' e' : ℕ) :
    (t.fields start s e).withSignature s' e' = t.fields start s' e' :=
  applyExtensions_withSignature _ _ _ _ _

theorem TbsCertificate.fields_frame (t : TbsCertificate) (start s e : ℕ) :
    (t.baseFields start s e).withExtensionsOf (t.fields start s e) = t.fields start s e :=
  applyExtensions_frame _ _ _

/-! ## TBS certificates -/

section Tbs

variable {raw : Bytes} {idx certEnd : ℕ} {f : X509Fields}

theorem parseTbsCertificate_safe (hend : certEnd ≤ raw.length) (hraw : raw.length < 2 ^ 63) :
    Safe (parseTbsCertificate raw idx certEnd f) fun p => ∃ t : TbsCertificate,
      Consumes raw idx certEnd t.encode p.1 ∧ p.2 = t.fields idx f.sigStart f.sigEnd := by
  unfold parseTbsCertificate
  -- the member behind the head is read where the head's own members are at hand
  refine Safe.bind ?_ fun _ h => h
  unfold parseTbsHead
  dsimp only
  refine Safe.bind (parseDataElement_safe hend hraw) ?_
  rintro ⟨start, tbsCertEnd⟩ ⟨content, rest, h⟩
  have hstart := h.start_eq
  have hendle := h.end_le
  have htbsend := h.consumes.next_eq
  dsimp only at h hstart hendle htbsend ⊢
  have hend' : tbsCertEnd ≤ raw.length := by omega
  refine Safe.bind (parseVersion_safe hend' hraw) ?_
  intro i1 hversion
  refine Safe.bind (parseDataElement_safe hend' hraw) ?_
  rintro ⟨serialStart, serialEnd⟩ ⟨serial, rest', hserial⟩
  dsimp only at hserial ⊢
  refine Safe.bind (parseAlgId_safe hend' hraw) ?_
  rintro sigId ⟨signature, hsig, rfl⟩
  refine Safe.bind (parseName_safe hend' hraw) ?_
  rintro i2 ⟨issuer, hissuer⟩
  refine Safe.bind (parseValidity_safe hend' hraw) ?_
  rintro ⟨i3, times⟩ ⟨notBefore, notAfter, hvalidity, rfl⟩
  dsimp only at hvalidity ⊢
  refine Safe.bind (parseName_safe hend' hraw) ?_
  rintro i4 ⟨subject, hsubject⟩
  refine Safe.bind (parsePublicKeyInfo_safe hend' hraw) ?_
  rintro ⟨keyId, keyStart, keyEnd⟩ ⟨key, hkey, hkeyId, hkeyStart⟩
  dsimp only at hkey hkeyId hkeyStart ⊢
  refine Safe.bind (skipOptionalData_safe hend' hraw) ?_
  rintro i5 ⟨issuerId, hissuerId⟩
  refine Safe.bind (skipOptionalData_safe hend' hraw) ?_
  rintro i6 ⟨subjectId, hsubjectId⟩
  rw [safe_ok]
  dsimp only
  refine Safe.bind (parseExtensions_safe hend' hraw) ?_
  rintro ⟨last, f'⟩ ⟨o, hextensions, hf⟩
  dsimp only at hextensions hf ⊢
  refine Safe.ite (fun _ => safe_code _ _) fun heq => ?_
  obtain rfl : last = tbsCertEnd := not_not.mp heq
  rw [safe_ok]
  obtain ⟨t, ht⟩ : ∃ t : TbsCertificate, t =
      { serialNumber := serial, signature, issuer, notBefore, notAfter, subject
        subjectPublicKeyInfo := key, issuerUniqueId := issuerId
        subjectUniqueId := subjectId, extensions := o } := ⟨_, rfl⟩
  have hcontent : content = t.content := by
    rw [← h.content_eq, ht, (hversion.trans (hserial.consumes.trans (hsig.trans
      (hissuer.trans (hvalidity.trans (hsubject.trans (hkey.trans (hissuerId.trans
        (hsubjectId.trans hextensions))))))))).all]
    rfl
  have hconsumes := h.consumes
  rw [hcontent] at hconsumes hstart htbsend
  refine ⟨t, hconsumes, ?_⟩
  -- every cursor is the sum of what was consumed in front of it
  have h1 := hversion.next_eq
  have h2 := hserial.start_eq
  have h3 := hserial.end_eq
  have h4 := hissuer.next_eq
  have h5 := hvalidity.next_eq
  have h6 := hsubject.next_eq
  have h7 := hkey.next_eq
  have h8 := hissuerId.next_eq
  have h9 := hsubjectId.next_eq
  have hserialStart : serialStart = t.serialStart idx := by
    rw [h2, h1, hstart, ht]
    rfl
  have hserialEnd : serialEnd = t.serialEnd idx := by
    rw [h3, hserialStart, ht]
    rfl
  have hsigId : signature.at serialEnd = t.sigId idx := by
    rw [hserialEnd, ht]
    rfl
  have hkeyInfo : i4 = t.keyInfoStart idx := by
    rw [h6, h5, h4, hsigId, ht]
    rfl
  have hkeyId' : keyId = t.keyId idx := by
    rw [hkeyId, hkeyInfo, ht]
    rfl
  have hkeyEnd : keyEnd = t.keyEnd idx := by
    rw [h7, hkeyInfo, ht]
    rfl
  have hkeyStart' : keyStart = t.keyStart idx := by
    have hkeyBits : t.subjectPublicKeyInfo = key := by rw [ht]
    rw [TbsCertificate.keyStart, ← hkeyEnd, hkeyBits]
    omega
  have hfirst : firstMember o i6 = t.firstExtension idx := by
    rw [h9, h8, hkeyEnd, ht]
    rfl
  rw [hf, hfirst, hserialStart, hsigId, hkeyId', hkeyEnd, hkeyStart', hserialEnd, htbsend, ht]
  rfl

/-- The optional extensions do not look like a unique identifier. -/
theorem lacks_encodeOptionalExtensions {identifier : UInt8} (h : derExplicit3 ≠ identifier)
    (o : Option ExtensionList) : Lacks identifier (encodeOptionalExtensions o) := by
  cases o with
  | none => exact lacks_nil _
  | some l =>
    rw [← List.append_nil (encodeOptionalExtensions _)]
    exact lacks_tlv _ _ h

/-- The extensions field is the last one. -/
theorem TbsCertificate.extensionsStart_add (t : TbsCertificate) (start : ℕ) :
    t.extensionsStart start + (encodeOptionalExtensions t.extensions).length =
      start + t.encode.length := by
  have hlen := congrArg List.length (TbsCertificate.content.eq_def t)
  simp only [List.length_append, length_tlv] at hlen
  simp only [extensionsStart, keyEnd, keyInfoStart, sigId, AlgorithmIdentifier.at_idEnd,
    serialEnd, serialStart, encode, length_tlv]
  omega

/-- The head of an encoded TBS certificate: the cursor stands in front of the extensions. -/
theorem TbsCertificate.parseTbsHead_eq (t : TbsCertificate) {r : Bytes}
    (hw : window raw idx certEnd = t.encode ++ r) (hend : certEnd ≤ raw.length)
    (hraw : raw.length < 2 ^ 63) :
    ∃ f', parseTbsHead raw idx certEnd f =
        .ok (t.extensionsStart idx, idx + t.encode.length, f') ∧
      assignDefaultExtensions f' = t.baseFields idx f.sigStart f.sigEnd ∧
      window raw (t.extensionsStart idx) (idx + t.encode.length) =
        encodeOptionalExtensions t.extensions := by
  have h := Reads.of_window hw
  have hle := h.end_le
  have hend' : idx + headerLength t.content + t.content.length ≤ raw.length := by omega
  have hlacks2 : Lacks derImplicit2 (encodeOptionalExtensions t.extensions) :=
    lacks_encodeOptionalExtensions (by decide) t.extensions
  have hlacks1 : Lacks derImplicit1
      (optionalElement derImplicit2 t.subjectUniqueId ++ encodeOptionalExtensions t.extensions) :=
    lacks_optionalElement (by decide) (lacks_encodeOptionalExtensions (by decide) t.extensions)
  -- the windows behind the successive members
  have w0 := h.content_eq.trans (TbsCertificate.content.eq_def t)
  have w1 := (of_window_append w0).2
  have hserial := Reads.of_window w1
  have w2 := hserial.rest_eq
  have w3 := (of_window_append w2).2
  have w4 := (of_window_append w3).2
  have w5 := (of_window_append w4).2
  have w6 := (of_window_append w5).2
  have w7 := (of_window_append w6).2
  have w8 := (of_window_append w7).2
  have w9 := (of_window_append w8).2
  have hvalidity : parseValidity raw _ _ =
      .ok (_ + t.encodeValidity.length, t.notBefore.unixTime, t.notAfter.unixTime) :=
    parseValidity_eq t.notBefore t.notAfter w4 hend' hraw
  have hsame : idx + headerLength t.content + t.content.length = idx + t.encode.length := by
    rw [TbsCertificate.encode, length_tlv, Nat.add_assoc]
  refine ⟨?fields, ?run, ?defaults, ?members⟩
  case run =>
    unfold parseTbsHead
    rw [h.parseDataElement_eq hend hraw, ok_bind]
    dsimp only
    rw [parseVersion_eq w0 hend' hraw, ok_bind, hserial.parseDataElement_eq hend' hraw, ok_bind]
    dsimp only
    rw [t.signature.parseAlgId_eq w2 hend' hraw, ok_bind,
      AlgorithmIdentifier.at_idEnd, t.issuer.parseName_eq w3 hend' hraw, ok_bind,
      hvalidity, ok_bind]
    dsimp only
    rw [t.subject.parseName_eq w5 hend' hraw, ok_bind,
      t.subjectPublicKeyInfo.parsePublicKeyInfo_eq w6 hend' hraw, ok_bind]
    dsimp only
    rw [skipOptionalData_eq w7 hlacks1 hend' hraw, ok_bind,
      skipOptionalData_eq w8 hlacks2 hend' hraw, ok_bind, hsame]
    rfl
  case defaults => rfl
  case members =>
    rw [← hsame]
    exact w9

theorem TbsCertificate.parse_eq (t : TbsCertificate) {r : Bytes}
    (hw : window raw idx certEnd = t.encode ++ r) (hend : certEnd ≤ raw.length)
    (hraw : raw.length < 2 ^ 63) :
    parseTbsCertificate raw idx certEnd f =
      .ok (idx + t.encode.length, t.fields idx f.sigStart f.sigEnd) := by
  obtain ⟨f', hhead, hbase, hextensions⟩ := t.parseTbsHead_eq (f := f) hw hend hraw
  have hle := le_of_window_append hw (tlv_ne_nil derSequence t.content)
  have hend' : idx + t.encode.length ≤ raw.length := by omega
  unfold parseTbsCertificate
  rw [hhead, ok_bind]
  dsimp only
  rw [parseExtensions_eq t.extensions hextensions hend' hraw, ok_bind]
  dsimp only
  rw [t.extensionsStart_add, if_neg (not_not.mpr rfl), hbase]
  rfl

end Tbs

/-! ## Certificates -/

section Certificates

variable {raw : Bytes} {idx : ℕ} {f : X509Fields} {alg : Bytes}

/-- The signatureAlgorithm must repeat the octets of the inner one, and the signature is
all that follows. -/
theorem parseSignature_safe (hraw : raw.length < 2 ^ 63) (hsig : f.sigIdStart ≤ f.sigIdEnd)
    (hsigIdx : f.sigIdEnd ≤ idx) (hidx : idx ≤ raw.length)
    (hinner : window raw f.sigIdStart f.sigIdEnd = alg) :
    Safe (parseSignature raw idx raw.length f) fun f' => ∃ bits,
      window raw idx raw.length = alg ++ encodeBitstring bits ∧
        f' = f.withSignature (raw.length - bits.length) raw.length := by
  have hsize : f.sigIdStart + (f.sigIdEnd - f.sigIdStart) = f.sigIdEnd := by omega
  have hlen := length_window (b := raw) f.sigIdStart (e := f.sigIdEnd) (by omega)
  rw [hinner] at hlen
  unfold parseSignature
  rw [usub_eq hsig, ok_bind, uadd_eq (by omega), ok_bind]
  refine Safe.ite (fun _ => safe_code _ _) fun hfits => ?_
  rw [rawRange_eq (by omega), ok_bind, rawRange_eq (by omega), ok_bind, hsize, hinner]
  refine Safe.ite (fun _ => safe_code _ _) fun hsame => ?_
  have houter : window raw idx (idx + (f.sigIdEnd - f.sigIdStart)) = alg :=
    (not_not.mp hsame).symm
  refine Safe.bind (parseBitstringNoUnused_safe le_rfl hraw) ?_
  rintro ⟨sigStart, sigEnd⟩ ⟨bits, hbits, hstart⟩
  dsimp only at hbits hstart ⊢
  refine Safe.ite (fun _ => safe_code _ _) fun heq => ?_
  obtain rfl : sigEnd = raw.length := not_not.mp heq
  rw [safe_ok]
  refine ⟨bits, ?_, ?_⟩
  · rw [window_split raw (m := idx + (f.sigIdEnd - f.sigIdStart)) (by omega) (by omega),
      houter, hbits.all]
  · rw [show raw.length - bits.length = sigStart by omega]
    rfl

theorem parseSignature_eq {bits : Bytes} (hraw : raw.length < 2 ^ 63)
    (hsig : f.sigIdStart ≤ f.sigIdEnd) (hsigIdx : f.sigIdEnd ≤ idx)
    (hinner : window raw f.sigIdStart f.sigIdEnd = alg)
    (hw : window raw idx raw.length = alg ++ encodeBitstring bits) :
    parseSignature raw idx raw.length f =
      .ok (f.withSignature (raw.length - bits.length) raw.length) := by
  have hbits : window raw (idx + alg.length) raw.length = encodeBitstring bits ++ [] :=
    (of_window_append hw).2.trans (List.append_nil _).symm
  have houter := (of_window_append hw).1
  have hread := Reads.of_window hbits
  have hlt := hread.idx_lt
  have hle := hread.end_le
  have hdone := (hread.rest_eq_nil_iff le_rfl).mp rfl
  have hlen := length_window (b := raw) f.sigIdStart (e := f.sigIdEnd) (by omega)
  rw [hinner] at hlen
  rw [List.length_cons] at hdone
  have hsize : f.sigIdStart + alg.length = f.sigIdEnd := by omega
  have hbitlen : (encodeBitstring bits).length = headerLength (0 :: bits) + (bits.length + 1) := by
    rw [encodeBitstring, length_tlv, List.length_cons]
  unfold parseSignature
  rw [usub_eq hsig, ok_bind, ← hlen, uadd_eq (by omega), ok_bind, if_neg (by omega),
    rawRange_eq (by omega), ok_bind, rawRange_eq (by omega), ok_bind, hsize, hinner, houter,
    if_neg (not_not.mpr rfl), parseBitstringNoUnused_eq hbits le_rfl hraw, ok_bind]
  dsimp only
  rw [if_neg (by omega), show idx + alg.length + headerLength (0 :: bits) + 1 =
      raw.length - bits.length by omega,
    show idx + alg.length + (encodeBitstring bits).length = raw.length by omega]
  rfl

end Certificates

/-- The inner AlgorithmIdentifier lies in the TBS certificate, at the recorded range. -/
theorem TbsCertificate.window_sigId (t : TbsCertificate) {raw r : Bytes} {idx parentEnd : ℕ}
    (hw : window raw idx parentEnd = t.encode ++ r) :
    window raw (t.sigId idx).idStart (t.sigId idx).idEnd = t.signature.encode ∧
      (t.sigId idx).idEnd ≤ idx + t.encode.length := by
  have h := Reads.of_window hw
  have w0 := h.content_eq.trans (TbsCertificate.content.eq_def t)
  have hserial := Reads.of_window (of_window_append w0).2
  have hsig := of_window_append hserial.rest_eq
  refine ⟨hsig.1, ?_⟩
  have hlen : t.content.length = _ := congrArg List.length (TbsCertificate.content.eq_def t)
  simp only [List.length_append, length_tlv] at hlen
  simp only [sigId, AlgorithmIdentifier.at_idEnd, serialEnd, serialStart, encode, length_tlv]
  omega

theorem TbsCertificate.fields_sigIdStart (t : TbsCertificate) (start s e : ℕ) :
    (t.fields start s e).sigIdStart = (t.sigId start).idStart := by
  rw [← t.fields_frame]
  rfl

theorem TbsCertificate.fields_sigIdEnd (t : TbsCertificate) (start s e : ℕ) :
    (t.fields start s e).sigIdEnd = (t.sigId start).idEnd := by
  rw [← t.fields_frame]
  rfl

/-- Soundness and freedom from faults: what `parse_x509` accepts is a certificate, and the
fields are the certificate's. -/
theorem parseX509_safe (raw : Bytes) (f : X509Fields) (hraw : raw.length < 2 ^ 63) :
    Safe (parseX509 raw f) fun f' => ∃ c : Certificate, c.encode = raw ∧ f' = c.fields := by
  unfold parseX509
  refine Safe.bind (parseDataElement_safe le_rfl hraw) ?_
  rintro ⟨start, certEnd⟩ ⟨content, rest, h⟩
  have hstart := h.start_eq
  have hstartle := h.start_le
  dsimp only at h hstart hstartle ⊢
  refine Safe.ite (fun _ => safe_code _ _) fun heq => ?_
  obtain rfl : certEnd = raw.length := (not_not.mp heq).symm
  have hnil := (h.rest_eq_nil_iff le_rfl).mpr rfl
  have hwhole : raw = tlv derSequence content := by
    rw [← window_full raw, h.window_eq, hnil, List.append_nil]
  refine Safe.bind (parseTbsCertificate_safe le_rfl hraw) ?_
  rintro ⟨next, f'⟩ ⟨t, ht, hf⟩
  have hnext := ht.next_eq
  have hnextle := ht.le hstartle
  dsimp only at ht hf hnext hnextle ⊢
  obtain ⟨hsigwin, hsigend⟩ := t.window_sigId ht.window_eq
  have hid : f'.sigIdStart = (t.sigId start).idStart := by rw [hf, t.fields_sigIdStart]
  have hid' : f'.sigIdEnd = (t.sigId start).idEnd := by rw [hf, t.fields_sigIdEnd]
  have hidle : (t.sigId start).idStart ≤ (t.sigId start).idEnd := Nat.le_add_right _ _
  rw [← hid, ← hid'] at hsigwin hidle
  rw [← hid'] at hsigend
  refine (parseSignature_safe hraw hidle (by omega) hnextle hsigwin).mono ?_
  rintro f'' ⟨bits, hw, rfl⟩
  have hcontent : content = (Certificate.mk t bits).content := by
    rw [← h.content_eq, ht.window_eq, hw]
    rfl
  refine ⟨⟨t, bits⟩, ?_, ?_⟩
  · rw [Certificate.encode, ← hcontent, ← hwhole]
  · have hencode : (Certificate.mk t bits).encode = raw := by
      rw [Certificate.encode, ← hcontent, ← hwhole]
    rw [hf, t.fields_withSignature, Certificate.fields, Certificate.tbsStart,
      Certificate.sigStart, hencode, ← hcontent, hstart, Nat.zero_add]

/-- The outermost element of a certificate fills it. -/
theorem Certificate.parseDataElement_eq (c : Certificate) (hlen : c.encode.length < 2 ^ 63) :
    parseDataElement c.encode derSequence 0 c.encode.length =
      .ok (c.tbsStart, c.encode.length) := by
  have h := Reads.of_window_eq (window_full c.encode : _ = tlv derSequence c.content)
  have hdone := (h.rest_eq_nil_iff le_rfl).mp rfl
  rw [h.parseDataElement_eq le_rfl hlen, hdone, Nat.zero_add]
  rfl

/-- Behind its header a certificate shows its content. -/
theorem Certificate.window_content (c : Certificate) :
    window c.encode c.tbsStart c.encode.length = c.content := by
  have h := Reads.of_window_eq (window_full c.encode : _ = tlv derSequence c.content)
  have hdone := (h.rest_eq_nil_iff le_rfl).mp rfl
  have hcontent := h.content_eq
  rwa [hdone, Nat.zero_add] at hcontent

/-- Completeness: the encoding of a certificate is accepted. -/
theorem parseX509_encode (c : Certificate) (f : X509Fields) (hlen : c.encode.length < 2 ^ 63) :
    parseX509 c.encode f = .ok c.fields := by
  have htbs := c.window_content.trans (Certificate.content.eq_def c)
  have hsig := (of_window_append htbs).2
  obtain ⟨hsigwin, hsigend⟩ := c.tbsCertificate.window_sigId htbs
  have hparse := c.tbsCertificate.parse_eq (f := f) htbs le_rfl hlen
  unfold parseX509
  rw [c.parseDataElement_eq hlen, ok_bind]
  dsimp only
  rw [if_neg (not_not.mpr rfl), hparse, ok_bind]
  dsimp only
  rw [← c.tbsCertificate.fields_sigIdStart _ f.sigStart f.sigEnd,
    ← c.tbsCertificate.fields_sigIdEnd _ f.sigStart f.sigEnd] at hsigwin
  rw [← c.tbsCertificate.fields_sigIdEnd _ f.sigStart f.sigEnd] at hsigend
  have hidle : (c.tbsCertificate.fields c.tbsStart f.sigStart f.sigEnd).sigIdStart ≤
      (c.tbsCertificate.fields c.tbsStart f.sigStart f.sigEnd).sigIdEnd := by
    rw [c.tbsCertificate.fields_sigIdStart, c.tbsCertificate.fields_sigIdEnd]
    exact Nat.le_add_right _ _
  rw [parseSignature_eq hlen hidle hsigend hsigwin hsig, c.tbsCertificate.fields_withSignature]
  rfl

/-- `PARSE_OK` characterises certificates and determines the fields. -/
theorem parseX509_ok_iff (raw : Bytes) (f f' : X509Fields) (hraw : raw.length < 2 ^ 63) :
    parseX509 raw f = .ok f' ↔ ∃ c : Certificate, c.encode = raw ∧ f' = c.fields := by
  constructor
  · exact (parseX509_safe raw f hraw).of_ok
  · rintro ⟨c, rfl, rfl⟩
    exact parseX509_encode c f hraw

/-- Exact acceptance: `PARSE_OK` is returned for the encodings of certificates and for no
other octets. -/
theorem parseX509_accepts_iff (raw : Bytes) (f : X509Fields) (hraw : raw.length < 2 ^ 63) :
    (∃ f', parseX509 raw f = .ok f') ↔ ∃ c : Certificate, c.encode = raw := by
  constructor
  · rintro ⟨f', h⟩
    obtain ⟨c, hc, -⟩ := (parseX509_ok_iff raw f f' hraw).mp h
    exact ⟨c, hc⟩
  · rintro ⟨c, hc⟩
    exact ⟨c.fields, (parseX509_ok_iff raw f c.fields hraw).mpr ⟨c, hc, rfl⟩⟩

theorem parseX509_accepts_ed25519 :
    (∃ f', parseX509 (ed25519Certificate epoch signingUsage 0).encode
        (ed25519Certificate epoch signingUsage 1).fields = .ok f') ↔
      ∃ c : Certificate, c.encode = (ed25519Certificate epoch signingUsage 0).encode :=
  parseX509_accepts_iff _ _ (by decide +kernel)

end X509Server
