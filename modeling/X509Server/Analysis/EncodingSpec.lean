import X509Server.Analysis.OptionalSpec
import X509Server.Analysis.CertificateSpec

/-!
# One certificate, one encoding

The encoding of a certificate is built from elements, which are a prefix code, so it
determines the certificate: every component is unambiguous, and a component with another
one behind it is a prefix code.  The optional components are told apart by their
identifiers, the alternatives of an extension by their OIDs.

For `parse_x509` it follows that the octets it accepts stand for one certificate, and that
they are not accepted any more with an end cut off or with something behind them.
-/

set_option autoImplicit false

namespace X509Server

open Checked ByteWindow Der PrefixCode

/-! ## Elements -/

/-- Elements that hold any octets. -/
theorem plain_isPrefixCode (identifier : UInt8) :
    IsPrefixCode (2 ^ 64) (tlv identifier) :=
  tlv_isPrefixCode identifier unambiguous_id

theorem optionalElement_eq_elim (identifier : UInt8) (o : Option Bytes) :
    optionalElement identifier o = o.elim [] (tlv identifier) := by
  cases o <;> rfl

/-- Octets without the element do not start with it. -/
theorem Lacks.ne_append {identifier : UInt8} {s : Bytes} (h : Lacks identifier s)
    (content rest : Bytes) : tlv identifier content ++ rest ≠ s := by
  rcases h with rfl | ⟨j, c, r, hj, rfl⟩
  · exact List.append_ne_nil_of_left_ne_nil (tlv_ne_nil _ _) rest
  · intro h
    exact hj (List.cons.inj h).1.symm

/-- An optional element in front of octets that lack its identifier. -/
theorem optionalElement_unambiguous {α : Type} (identifier : UInt8) {g : α → Bytes}
    (hg : Unambiguous (2 ^ 64) g) (hlacks : ∀ a, Lacks identifier (g a)) :
    Unambiguous (2 ^ 64) fun p : Option Bytes × α => optionalElement identifier p.1 ++ g p.2 := by
  simp only [optionalElement_eq_elim]
  exact (plain_isPrefixCode identifier).optional hg fun c r a => (hlacks a).ne_append c r

theorem optionalElement_last (identifier : UInt8) :
    Unambiguous (2 ^ 64) (optionalElement identifier) := by
  intro a b hlen h
  have hg : Unambiguous (2 ^ 64) fun _ : Unit => ([] : Bytes) := fun _ _ _ _ => rfl
  have hpair := @optionalElement_unambiguous Unit identifier _ hg (fun _ => lacks_nil _)
    (a, ()) (b, ())
  simp only [List.append_nil] at hpair
  exact (Prod.mk.inj (hpair hlen h)).1

/-- `BOOLEAN DEFAULT FALSE` in front of octets that lack the identifier. -/
theorem defaultFalse_unambiguous {α : Type} {g : α → Bytes} (hg : Unambiguous (2 ^ 64) g)
    (hlacks : ∀ a, Lacks derBoolean (g a)) :
    Unambiguous (2 ^ 64) fun p : Bool × α => defaultFalse p.1 ++ g p.2 := by
  refine (optionalElement_unambiguous derBoolean hg hlacks).comp
    (i := fun p : Bool × α => (if p.1 then some [0xff] else none, p.2)) ?_
  rintro ⟨b, a⟩ ⟨b', a'⟩ h
  cases b <;> cases b' <;> simp_all

theorem encodeBitstring_isPrefixCode : IsPrefixCode (2 ^ 64) encodeBitstring :=
  tlv_isPrefixCode derBitstring (unambiguous_id.cons_word [0])

/-! ## Names, algorithms and times -/

theorem AlgorithmIdentifier.encode_isPrefixCode :
    IsPrefixCode (2 ^ 64) AlgorithmIdentifier.encode := by
  have hcontent := (plain_isPrefixCode derOid).append (unambiguous_id (β := UInt8))
  refine tlv_isPrefixCode derSequence
    (hcontent.comp (i := fun a : AlgorithmIdentifier => (a.algorithm, a.parameters)) ?_)
  rintro ⟨a, p⟩ ⟨a', p'⟩ h
  simpa using h

theorem AttributeTypeAndValue.encode_isPrefixCode :
    IsPrefixCode (2 ^ 64) AttributeTypeAndValue.encode := by
  have hcontent := (plain_isPrefixCode derOid).append tlv_isPrefixCode_any.unambiguous
  refine tlv_isPrefixCode derSequence (hcontent.comp
    (i := fun a : AttributeTypeAndValue => (a.type, a.valueIdentifier, a.value)) ?_)
  rintro ⟨t, i, v⟩ ⟨t', i', v'⟩ h
  simpa using h

theorem RelativeDistinguishedName.encode_isPrefixCode :
    IsPrefixCode (2 ^ 64) RelativeDistinguishedName.encode := by
  have hlist := AttributeTypeAndValue.encode_isPrefixCode.flatMap fun _ => tlv_ne_nil _ _
  refine tlv_isPrefixCode derSet (hlist.comp (i := RelativeDistinguishedName.attributes) ?_)
  rintro ⟨a, as⟩ ⟨a', as'⟩ h
  simpa [RelativeDistinguishedName.attributes] using h

theorem Name.encode_isPrefixCode : IsPrefixCode (2 ^ 64) Name.encode := by
  have hlist := RelativeDistinguishedName.encode_isPrefixCode.flatMap fun _ => tlv_ne_nil _ _
  refine tlv_isPrefixCode derSequence (hlist.comp (i := Name.rdns) ?_)
  rintro ⟨rs⟩ ⟨rs'⟩ h
  simpa using h

theorem TimeForm.identifier_injective : Function.Injective TimeForm.identifier := by
  intro form form'
  cases form <;> cases form' <;> decide

/-- The timestamp is no further information. -/
theorem Time.encode_isPrefixCode : IsPrefixCode (2 ^ 64) Time.encode := by
  refine tlv_isPrefixCode_any.comp (i := fun t : Time => (t.form.identifier, t.contents)) ?_
  rintro ⟨form, contents, unixTime, haccepted⟩ ⟨form', contents', unixTime', haccepted'⟩ h
  obtain ⟨hform, rfl⟩ := Prod.mk.inj h
  obtain rfl := TimeForm.identifier_injective hform
  rw [haccepted] at haccepted'
  cases haccepted'
  rfl

theorem SubjectPublicKeyInfo.encode_isPrefixCode :
    IsPrefixCode (2 ^ 64) SubjectPublicKeyInfo.encode := by
  have hcontent := AlgorithmIdentifier.encode_isPrefixCode.append
    encodeBitstring_isPrefixCode.unambiguous
  refine tlv_isPrefixCode derSequence (hcontent.comp
    (i := fun k : SubjectPublicKeyInfo => (k.algorithm, k.subjectPublicKey)) ?_)
  rintro ⟨a, k⟩ ⟨a', k'⟩ h
  simpa using h

/-! ## Extensions -/

theorem PathLength.octets_injective : Function.Injective PathLength.octets := by
  rintro ⟨o, _, _, _⟩ ⟨o', _, _, _⟩ rfl
  rfl

theorem BasicConstraints.encode_unambiguous :
    Unambiguous (2 ^ 64) BasicConstraints.encode := by
  have hca : Unambiguous (2 ^ 64) fun pathLen : Option PathLength =>
      defaultFalse true ++ optionalElement derInteger (pathLen.map PathLength.octets) :=
    ((optionalElement_last derInteger).comp
      (Option.map_injective PathLength.octets_injective)).cons_word _
  have hne : ∀ pathLen : Option PathLength, [] ≠
      defaultFalse true ++ optionalElement derInteger (pathLen.map PathLength.octets) := by
    intro pathLen h
    exact tlv_ne_nil _ _ (List.append_eq_nil_iff.mp h.symm).1
  intro a b hlen h
  cases a with
  | notCa =>
    cases b with
    | notCa => rfl
    | ca pathLen =>
      have := (plain_isPrefixCode derSequence).unambiguous hlen h
      exact absurd this (hne pathLen)
  | ca pathLen =>
    cases b with
    | notCa =>
      have := (plain_isPrefixCode derSequence).unambiguous hlen h
      exact absurd this.symm (hne pathLen)
    | ca pathLen' =>
      have := (plain_isPrefixCode derSequence).unambiguous hlen h
      rw [hca (length_lt_of_tlv hlen) this]

theorem AuthorityKeyIdentifier.encode_unambiguous :
    Unambiguous (2 ^ 64) AuthorityKeyIdentifier.encode := by
  have hserial := optionalElement_last derImplicit2
  have hissuer := optionalElement_unambiguous (derImplicit1 ||| derConstructed) hserial
    fun serial => by
      rw [← List.append_nil (optionalElement derImplicit2 serial)]
      exact lacks_optionalElement (by decide) (lacks_nil _)
  have hkey := optionalElement_unambiguous derImplicit0 hissuer fun p => by
    refine lacks_optionalElement (by decide) ?_
    rw [← List.append_nil (optionalElement derImplicit2 p.2)]
    exact lacks_optionalElement (by decide) (lacks_nil _)
  refine (tlv_isPrefixCode derSequence hkey).unambiguous.comp
    (i := fun a : AuthorityKeyIdentifier =>
      (a.keyIdentifier, a.authorityCertIssuer, a.authorityCertSerialNumber)) ?_
  rintro ⟨k, i, s⟩ ⟨k', i', s'⟩ h
  simpa using h

theorem KeyUsage.encode_unambiguous : Unambiguous (2 ^ 64) KeyUsage.encode := by
  refine (plain_isPrefixCode derBitstring).unambiguous.comp
    (i := fun k : KeyUsage => k.unused :: k.octets) ?_
  rintro ⟨u, a, b, _, _⟩ ⟨u', a', b', _, _⟩ h
  obtain ⟨rfl, htail⟩ := List.cons.inj h
  obtain ⟨rfl, hsecond⟩ := List.cons.inj htail
  obtain rfl : b = b' := by cases b <;> cases b' <;> simp_all
  rfl

theorem encodePurposes_unambiguous : Unambiguous (2 ^ 64) Extension.encodePurposes :=
  (plain_isPrefixCode derOid).flatMap fun _ => tlv_ne_nil _ _

/-- The alternative is told by the OID. -/
theorem Extension.ctorIdx_eq (x : Extension) : x.ctorIdx = supportedOids.idxOf x.oid := by
  cases x with
  | unrecognized oid value hunsupported => exact (List.idxOf_eq_length hunsupported).symm
  | _ => rfl

/-- An extension is determined by its OID, its criticality and its value. -/
theorem Extension.eq_of_parts {x y : Extension} (hoid : x.oid = y.oid)
    (hcritical : x.critical = y.critical) (hlen : x.value.length < 2 ^ 64)
    (hvalue : x.value = y.value) : x = y := by
  have hkind : x.ctorIdx = y.ctorIdx := by rw [x.ctorIdx_eq, y.ctorIdx_eq, hoid]
  cases x with
  | basicConstraints body =>
    cases y with
    | basicConstraints body' => rw [BasicConstraints.encode_unambiguous hlen hvalue]
    | _ => cases hkind
  | authorityKeyIdentifier body =>
    cases y with
    | authorityKeyIdentifier body' => rw [AuthorityKeyIdentifier.encode_unambiguous hlen hvalue]
    | _ => cases hkind
  | subjectKeyIdentifier body =>
    cases y with
    | subjectKeyIdentifier body' =>
      rw [(plain_isPrefixCode derOctetString).unambiguous hlen hvalue]
    | _ => cases hkind
  | keyUsage critical body =>
    cases y with
    | keyUsage critical' body' =>
      obtain rfl : critical = critical' := hcritical
      rw [KeyUsage.encode_unambiguous hlen hvalue]
    | _ => cases hkind
  | extKeyUsage critical purposes =>
    cases y with
    | extKeyUsage critical' purposes' =>
      obtain rfl : critical = critical' := hcritical
      have hcode := tlv_isPrefixCode derSequence encodePurposes_unambiguous
      rw [hcode.unambiguous hlen hvalue]
    | _ => cases hkind
  | unrecognized oid value hunsupported =>
    cases y with
    | unrecognized oid' value' hunsupported' =>
      obtain rfl : oid = oid' := hoid
      obtain rfl : value = value' := hvalue
      rfl
    | _ => cases hkind

theorem Extension.encode_isPrefixCode : IsPrefixCode (2 ^ 64) Extension.encode := by
  have hvalue := (plain_isPrefixCode derOctetString).unambiguous
  have hcritical := defaultFalse_unambiguous hvalue fun value => by
    rw [← List.append_nil (tlv derOctetString value)]
    exact lacks_tlv _ _ (by decide)
  have hcontent := (plain_isPrefixCode derOid).append hcritical
  refine tlv_isPrefixCode derSequence fun x y hlen h => ?_
  have hparts := hcontent (a := (x.oid, x.critical, x.value)) (b := (y.oid, y.critical, y.value))
    hlen h
  simp only [Prod.mk.injEq] at hparts
  refine Extension.eq_of_parts hparts.1 hparts.2.1 ?_ hparts.2.2
  simp only [Extension.content, List.length_append] at hlen
  have hvalueLen : (tlv derOctetString x.value).length < 2 ^ 64 := by omega
  exact length_lt_of_tlv hvalueLen

theorem ExtensionList.extensions_injective : Function.Injective ExtensionList.extensions := by
  rintro ⟨xs, _, _⟩ ⟨ys, _, _⟩ rfl
  rfl

theorem ExtensionList.encode_isPrefixCode : IsPrefixCode (2 ^ 64) ExtensionList.encode := by
  have hlist := Extension.encode_isPrefixCode.flatMap fun _ => tlv_ne_nil _ _
  have hsequence := tlv_isPrefixCode derSequence hlist
  exact (tlv_isPrefixCode derExplicit3 hsequence.unambiguous).comp extensions_injective

theorem encodeOptionalExtensions_unambiguous :
    Unambiguous (2 ^ 64) encodeOptionalExtensions := by
  intro a b hlen h
  cases a with
  | none =>
    cases b with
    | none => rfl
    | some l' => exact absurd h.symm (tlv_ne_nil _ _)
  | some l =>
    cases b with
    | none => exact absurd h (tlv_ne_nil _ _)
    | some l' => rw [ExtensionList.encode_isPrefixCode.unambiguous hlen h]

/-! ## Certificates -/

theorem encodeValidity_isPrefixCode : IsPrefixCode (2 ^ 64) fun p : Time × Time =>
    tlv derSequence (p.1.encode ++ p.2.encode) :=
  tlv_isPrefixCode derSequence (Time.encode_isPrefixCode.append
    Time.encode_isPrefixCode.unambiguous)

theorem TbsCertificate.encode_isPrefixCode : IsPrefixCode (2 ^ 64) TbsCertificate.encode := by
  -- the components from the last to the first
  have hsubjectId := optionalElement_unambiguous derImplicit2 encodeOptionalExtensions_unambiguous
    fun o => lacks_encodeOptionalExtensions (by decide) o
  have hissuerId := optionalElement_unambiguous derImplicit1 hsubjectId fun p =>
    lacks_optionalElement (by decide) (lacks_encodeOptionalExtensions (by decide) p.2)
  have hkey := SubjectPublicKeyInfo.encode_isPrefixCode.append hissuerId
  have hsubject := Name.encode_isPrefixCode.append hkey
  have hvalidity := encodeValidity_isPrefixCode.append hsubject
  have hissuer := Name.encode_isPrefixCode.append hvalidity
  have hsignature := AlgorithmIdentifier.encode_isPrefixCode.append hissuer
  have hserial := (plain_isPrefixCode derInteger).append hsignature
  refine tlv_isPrefixCode derSequence ((hserial.cons_word encodeVersion).comp
    (i := fun t : TbsCertificate => (t.serialNumber, t.signature, t.issuer,
      (t.notBefore, t.notAfter), t.subject, t.subjectPublicKeyInfo, t.issuerUniqueId,
      t.subjectUniqueId, t.extensions)) ?_)
  intro t t' h
  simp only [Prod.mk.injEq] at h
  obtain ⟨h1, h2, h3, ⟨h4, h5⟩, h6, h7, h8, h9, h10⟩ := h
  cases t
  cases t'
  simp_all only

/-- No certificate's encoding is the beginning of another one. -/
theorem Certificate.encode_isPrefixCode : IsPrefixCode (2 ^ 64) Certificate.encode := by
  have hsignature := AlgorithmIdentifier.encode_isPrefixCode.append
    encodeBitstring_isPrefixCode.unambiguous
  have hcontent := TbsCertificate.encode_isPrefixCode.append hsignature
  refine tlv_isPrefixCode derSequence (hcontent.comp (i := fun c : Certificate =>
    (c.tbsCertificate, c.tbsCertificate.signature, c.signatureValue)) ?_)
  rintro ⟨t, bits⟩ ⟨t', bits'⟩ h
  obtain ⟨rfl, -, rfl⟩ : t = t' ∧ _ ∧ bits = bits' := by simpa only [Prod.mk.injEq] using h
  rfl

/-! ## Cut off and continued -/

/-- What is wrong with the form of a length is so whatever follows. -/
theorem RedundantLength.append {count : ℕ} {w : Bytes} (h : RedundantLength count w)
    (rest : Bytes) : RedundantLength count (w ++ rest) := by
  obtain ⟨hcount, hcases⟩ := h
  refine ⟨by rw [List.length_append]; omega, hcases.imp ?_ ?_⟩
  · intro hzero
    cases w with
    | nil => cases hzero
    | cons b w => exact hzero
  · intro hsmall
    rwa [List.take_append_of_le_length hcount]

theorem InvalidLengthForm.append {w : Bytes} (h : InvalidLengthForm w) (rest : Bytes) :
    InvalidLengthForm (w ++ rest) := by
  match w, h with
  | _ :: lengthByte :: w, h =>
    exact h.imp id (Or.imp id fun h => ⟨h.1, h.2.append rest⟩)

section Cut

variable {raw : Bytes} {idx parentEnd : ℕ} {identifier : UInt8} {content rest : Bytes}

/-- The beginning of an element is refused for its end. -/
theorem parseAny_cut (hend : parentEnd ≤ raw.length) (hsize : parentEnd < 2 ^ 63)
    (hcontent : (tlv identifier content).length < 2 ^ 63) (hrest : rest ≠ [])
    (hcut : window raw idx parentEnd ++ rest = tlv identifier content) :
    parseAny raw idx parentEnd = reject .unexpectedEndOfData := by
  have hsafe := @parseAny_safe raw idx parentEnd hend hsize
  have hyields := @parseAny_yields raw idx parentEnd hend hsize
  have hvalid : ¬ InvalidLengthForm (window raw idx parentEnd) := by
    intro hinvalid
    have hwhole := hinvalid.append rest
    have hstands : window (tlv identifier content) 0 (tlv identifier content).length =
        tlv identifier content ++ [] := by
      rw [window_full, List.append_nil]
    rw [hcut, ← window_full (tlv identifier content)] at hwhole
    exact not_invalidLengthForm hstands le_rfl hcontent hwhole
  cases hresult : parseAny raw idx parentEnd with
  | ok element =>
    obtain ⟨content', rest', hreads⟩ := hsafe.of_ok hresult
    rw [hreads.window_eq, List.append_assoc, ← List.append_nil (tlv identifier content)] at hcut
    have hlen := hreads.length_content
    have hle := hreads.end_le
    obtain ⟨-, -, hnil⟩ := tlv_append_inj (by omega)
      (length_lt_of_tlv (hcontent.trans (by norm_num))) hcut
    exact absurd (List.append_eq_nil_iff.mp hnil).2 hrest
  | error stop =>
    cases stop with
    | fault x => exact absurd hresult (hsafe.ne_fault x)
    | code c =>
      rcases hyields.of_code hresult with ⟨-, hinvalid⟩ | ⟨rfl, -⟩
      · exact absurd hinvalid hvalid
      · rfl

end Cut

/-- A certificate that is not all there. -/
theorem parseX509_cut (c : Certificate) {raw rest : Bytes} (hrest : rest ≠ [])
    (hcut : raw ++ rest = c.encode) (hlen : c.encode.length < 2 ^ 63) (f : X509Fields) :
    parseX509 raw f = reject .unexpectedEndOfData := by
  have hraw := congrArg List.length hcut
  rw [List.length_append] at hraw
  unfold parseX509 parseDataElement
  rw [parseAny_cut le_rfl (by omega) hlen hrest (by rw [window_full]; exact hcut)]
  rfl

/-- A certificate with something behind it. -/
theorem parseX509_continued (c : Certificate) {rest : Bytes} (hrest : rest ≠ [])
    (hlen : (c.encode ++ rest).length < 2 ^ 63) (f : X509Fields) :
    parseX509 (c.encode ++ rest) f = reject .trailingData := by
  have h := Reads.of_window (window_full (c.encode ++ rest))
  have hend := mt (h.rest_eq_nil_iff le_rfl).mpr hrest
  unfold parseX509
  rw [h.parseDataElement_eq le_rfl hlen, ok_bind]
  exact if_pos (Ne.symm hend)

/-- What `parse_x509` accepts encodes one certificate only; a proper beginning of it is
refused for its end, and whatever is appended to it as trailing data. -/
theorem accepted_alone (raw : Bytes) (f₀ f : X509Fields) (hraw : raw.length < 2 ^ 63)
    (hok : parseX509 raw f₀ = .ok f) :
    (∃! c : Certificate, c.encode = raw) ∧
      (∀ k < raw.length, ∀ g, parseX509 (raw.take k) g = reject .unexpectedEndOfData) ∧
      ∀ rest g, rest ≠ [] → (raw ++ rest).length < 2 ^ 63 →
        parseX509 (raw ++ rest) g = reject .trailingData := by
  obtain ⟨c, rfl, -⟩ := (parseX509_ok_iff raw f₀ f hraw).mp hok
  refine ⟨⟨c, rfl, fun c' h => ?_⟩, fun k hk g => ?_, fun rest g hrest hlen => ?_⟩
  · have hlt : c'.encode.length < 2 ^ 64 := by
      rw [h]
      omega
    exact Certificate.encode_isPrefixCode.unambiguous hlt h
  · have hdrop : c.encode.drop k ≠ [] := by
      rw [Ne, List.drop_eq_nil_iff]
      omega
    exact parseX509_cut c hdrop (List.take_append_drop k _) hraw g
  · exact parseX509_continued c hrest hlen g

theorem accepted_alone_ed25519 :
    ∃! c : Certificate, c.encode = (ed25519Certificate epoch signingUsage 0).encode :=
  (accepted_alone _ (ed25519Certificate epoch signingUsage 1).fields
    (ed25519Certificate epoch signingUsage 0).fields (by decide +kernel)
    (parseX509_encode _ _ (by decide +kernel))).1

end X509Server
