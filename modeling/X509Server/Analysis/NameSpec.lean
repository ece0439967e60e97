import X509Server.Analysis.TimeSpec
import X509Server.Interface.Fields

/-!
# The components in front of the extensions

For each component parser of `parse_x509` two facts: it never faults and consumes the
encoding of a component (`…_safe`), and it accepts such an encoding (`…_eq`).  The loops
of `parse_name` are followed by induction on their iteration bound in the first case and
on the list of members in the second.
-/

set_option autoImplicit false

namespace X509Server

open Checked ByteWindow Der

section Components

variable {raw : Bytes} {idx parentEnd : ℕ}

/-! ## AlgorithmIdentifier -/

theorem parseAlgId_safe (hend : parentEnd ≤ raw.length) (hraw : raw.length < 2 ^ 63) :
    Safe (parseAlgId raw idx parentEnd) fun a => ∃ alg : AlgorithmIdentifier,
      Consumes raw idx parentEnd alg.encode a.idEnd ∧ a = alg.at idx := by
  unfold parseAlgId
  refine Safe.bind (parseDataElement_safe hend hraw) ?_
  rintro ⟨start, idEnd⟩ ⟨content, rest, h⟩
  have hle := h.end_le
  dsimp only at h hle ⊢
  refine Safe.bind (parseDataElement_safe (by omega) hraw) ?_
  rintro ⟨oidStart, oidEnd⟩ ⟨oid, params, h'⟩
  dsimp only at h' ⊢
  have hcontent : content = tlv derOid oid ++ params := by
    rw [← h.content_eq, h'.window_eq]
  subst hcontent
  rw [safe_ok]
  refine ⟨⟨oid, params⟩, h.consumes, ?_⟩
  have h1 := h.start_eq
  have h2 := h'.start_eq
  have h3 := h'.end_eq
  have h4 := h.consumes.next_eq
  simp only [AlgorithmIdentifier.at, AlgorithmIdentifier.content, AlgorithmIdentifier.encode,
    AlgId.mk.injEq, true_and]
  omega

theorem AlgorithmIdentifier.parseAlgId_eq (a : AlgorithmIdentifier) {r : Bytes}
    (hw : window raw idx parentEnd = a.encode ++ r) (hend : parentEnd ≤ raw.length)
    (hraw : raw.length < 2 ^ 63) : parseAlgId raw idx parentEnd = .ok (a.at idx) := by
  have h := Reads.of_window hw
  have hle := h.end_le
  have h' := Reads.of_window h.content_eq
  unfold parseAlgId
  rw [h.parseDataElement_eq hend hraw, ok_bind]
  dsimp only
  rw [h'.parseDataElement_eq (by omega) hraw, ok_bind]
  simp only [AlgorithmIdentifier.at, AlgorithmIdentifier.encode, length_tlv, Nat.add_assoc]

/-! ## Name -/

/-- The attribute loop reads the rest of a SET, at least one attribute if its end variable
is still in front of the SET's end. -/
theorem attributeLoop_safe {relativeNameEnd : ℕ} (hend : relativeNameEnd ≤ raw.length)
    (hraw : raw.length < 2 ^ 63) (fuel idx attributeEnd : ℕ) (hidx : idx ≤ relativeNameEnd)
    (hfuel : relativeNameEnd - idx < fuel)
    (hexit : relativeNameEnd ≤ attributeEnd → idx = relativeNameEnd) :
    Safe (attributeLoop raw relativeNameEnd fuel idx attributeEnd) fun next =>
      next = relativeNameEnd ∧ ∃ as, window raw idx relativeNameEnd = encodeAttributes as ∧
        (attributeEnd < relativeNameEnd → as ≠ []) := by
  induction fuel generalizing idx attributeEnd with
  | zero => omega
  | succ fuel ih =>
    unfold attributeLoop
    refine Safe.ite (fun hlt => ?_) fun hge => ?_
    · refine Safe.bind (parseDataElement_safe hend hraw) ?_
      rintro ⟨start, attrEnd⟩ ⟨content, rest, h⟩
      have hlt' := h.idx_lt
      have hle := h.start_le
      have hendle := h.end_le
      dsimp only at h hlt' hle hendle ⊢
      refine Safe.bind (parseDataElement_safe (by omega) hraw) ?_
      rintro ⟨typeStart, typeEnd⟩ ⟨type, rest', h'⟩
      dsimp only at h' ⊢
      refine Safe.bind (parseAny_safe (by omega) (by omega)) ?_
      rintro value ⟨valueContent, rest'', h''⟩
      refine Safe.ite (fun _ => safe_code _ _) fun heq => ?_
      have hsame : value.contentEnd = attrEnd := by omega
      have hnil : rest'' = [] := (h''.rest_eq_nil_iff (by omega)).mpr hsame
      rw [hsame]
      -- the SEQUENCE is one attribute, and the loop goes on behind it
      have hattr : content =
          tlv derOid type ++ tlv value.identifier valueContent := by
        rw [← h.content_eq, h'.window_eq, ← h'.rest_eq, h''.window_eq, hnil, List.append_nil]
      refine (ih attrEnd attrEnd (by omega) (by omega) (by omega)).mono ?_
      rintro next ⟨hnext, as, has, -⟩
      refine ⟨hnext, ⟨type, value.identifier, valueContent⟩ :: as, ?_, by simp⟩
      rw [h.consumes.window_eq, has, hattr]
      rfl
    · rw [safe_ok]
      have hdone := hexit (by omega)
      exact ⟨hdone, [], by rw [hdone]; exact window_eq_nil le_rfl, fun h => absurd h hge⟩

/-- The attribute loop passes over encoded attributes. -/
theorem attributeLoop_eq {relativeNameEnd : ℕ} (hend : relativeNameEnd ≤ raw.length)
    (hraw : raw.length < 2 ^ 63) (as : List AttributeTypeAndValue) (fuel idx attributeEnd : ℕ)
    (hidx : idx ≤ relativeNameEnd) (hfuel : relativeNameEnd - idx < fuel)
    (hw : window raw idx relativeNameEnd = encodeAttributes as)
    (hmore : attributeEnd < relativeNameEnd ↔ as ≠ []) :
    attributeLoop raw relativeNameEnd fuel idx attributeEnd = .ok relativeNameEnd := by
  induction as generalizing fuel idx attributeEnd with
  | nil =>
    obtain ⟨fuel, rfl⟩ : ∃ k, fuel = k + 1 := ⟨fuel - 1, by omega⟩
    have hlen := length_window idx hend
    rw [hw, encodeAttributes, List.flatMap_nil, List.length_nil] at hlen
    unfold attributeLoop
    rw [if_neg (by simpa using hmore)]
    congr 1
    omega
  | cons a as ih =>
    obtain ⟨fuel, rfl⟩ : ∃ k, fuel = k + 1 := ⟨fuel - 1, by omega⟩
    have hw' : window raw idx relativeNameEnd = a.encode ++ encodeAttributes as := hw
    have h := Reads.of_window hw'
    have hlt := h.idx_lt
    have hle := h.end_le
    have h' := Reads.of_window h.content_eq
    have h'' := Reads.of_window_eq h'.rest_eq
    have hvalue : idx + headerLength (tlv derOid a.type ++ tlv a.valueIdentifier a.value) +
        (tlv derOid a.type ++ tlv a.valueIdentifier a.value).length =
        idx + headerLength (tlv derOid a.type ++ tlv a.valueIdentifier a.value) +
          headerLength a.type + a.type.length + headerLength a.value + a.value.length := by
      rw [List.length_append, length_tlv, length_tlv]
      omega
    unfold attributeLoop
    rw [if_pos (hmore.mpr (by simp)), h.parseDataElement_eq hend hraw, ok_bind]
    dsimp only
    rw [h'.parseDataElement_eq (by omega) hraw, ok_bind]
    dsimp only
    rw [h''.parseAny_eq (by omega), ok_bind]
    dsimp only
    rw [if_neg (by omega), ← hvalue]
    have hrest := h.rest_eq
    refine ih fuel _ _ (by omega) (by omega) hrest ?_
    have hlen := length_window (b := raw)
      (idx + headerLength (tlv derOid a.type ++ tlv a.valueIdentifier a.value) +
        (tlv derOid a.type ++ tlv a.valueIdentifier a.value).length) hend
    rw [hrest] at hlen
    constructor
    · rintro hlt rfl
      simp only [encodeAttributes, List.flatMap_nil, List.length_nil] at hlen
      omega
    · intro hne
      obtain ⟨b, bs, rfl⟩ := List.exists_cons_of_ne_nil hne
      have hpos := two_le_headerLength (tlv derOid b.type ++ tlv b.valueIdentifier b.value)
      simp only [encodeAttributes, List.flatMap_cons, List.length_append,
        AttributeTypeAndValue.encode, length_tlv] at hlen
      omega

/-- The name loop reads the rest of the RDNSequence. -/
theorem nameLoop_safe {nameEnd : ℕ} (hend : nameEnd ≤ raw.length) (hraw : raw.length < 2 ^ 63)
    (fuel idx : ℕ) (hidx : idx ≤ nameEnd) (hfuel : nameEnd - idx < fuel) :
    Safe (nameLoop raw nameEnd fuel idx) fun next =>
      next = nameEnd ∧ ∃ rs, window raw idx nameEnd = encodeRdns rs := by
  induction fuel generalizing idx with
  | zero => omega
  | succ fuel ih =>
    unfold nameLoop
    refine Safe.ite (fun hlt => ?_) fun hge => ?_
    · refine Safe.bind (parseDataElement_safe hend hraw) ?_
      rintro ⟨start, relEnd⟩ ⟨content, rest, h⟩
      have hlt' := h.idx_lt
      have hle := h.start_le
      have hendle := h.end_le
      dsimp only at h hlt' hle hendle ⊢
      refine Safe.bind (attributeLoop_safe (by omega) hraw _ _ _ hle (by omega)
        (by omega)) ?_
      rintro next ⟨rfl, as, has, hne⟩
      rw [assertThat_eq (by simp), ok_bind]
      obtain ⟨a, as, rfl⟩ := List.exists_cons_of_ne_nil (hne (by omega))
      refine (ih next (by omega) (by omega)).mono ?_
      rintro last ⟨hlast, rs, hrs⟩
      refine ⟨hlast, ⟨a, as⟩ :: rs, ?_⟩
      rw [h.consumes.window_eq, hrs, ← h.content_eq, has]
      rfl
    · rw [safe_ok]
      have hdone : idx = nameEnd := by omega
      exact ⟨hdone, [], by rw [hdone]; exact window_eq_nil le_rfl⟩

/-- The name loop passes over encoded RelativeDistinguishedNames. -/
theorem nameLoop_eq {nameEnd : ℕ} (hend : nameEnd ≤ raw.length) (hraw : raw.length < 2 ^ 63)
    (rs : List RelativeDistinguishedName) (fuel idx : ℕ) (hidx : idx ≤ nameEnd)
    (hfuel : nameEnd - idx < fuel) (hw : window raw idx nameEnd = encodeRdns rs) :
    nameLoop raw nameEnd fuel idx = .ok nameEnd := by
  induction rs generalizing fuel idx with
  | nil =>
    obtain ⟨fuel, rfl⟩ : ∃ k, fuel = k + 1 := ⟨fuel - 1, by omega⟩
    have hlen := length_window idx hend
    rw [hw, encodeRdns, List.flatMap_nil, List.length_nil] at hlen
    unfold nameLoop
    rw [if_neg (by omega)]
    congr 1
    omega
  | cons r rs ih =>
    obtain ⟨fuel, rfl⟩ : ∃ k, fuel = k + 1 := ⟨fuel - 1, by omega⟩
    have hw' : window raw idx nameEnd = r.encode ++ encodeRdns rs := hw
    have h := Reads.of_window hw'
    have hlt := h.idx_lt
    have hle := h.end_le
    have hpos : 0 < idx + headerLength (encodeAttributes r.attributes) +
        (encodeAttributes r.attributes).length := by omega
    have hsome : r.attributes ≠ [] := by simp [RelativeDistinguishedName.attributes]
    have hloop := attributeLoop_eq (by omega) hraw r.attributes (raw.length + 1)
      (idx + headerLength (encodeAttributes r.attributes)) 0 (Nat.le_add_right _ _) (by omega)
      h.content_eq (iff_of_true hpos hsome)
    unfold nameLoop
    rw [if_pos (by omega), h.parseDataElement_eq hend hraw, ok_bind]
    dsimp only
    rw [hloop, ok_bind, assertThat_eq (by simp), ok_bind]
    exact ih fuel _ (by omega) (by omega) h.rest_eq

theorem parseName_safe (hend : parentEnd ≤ raw.length) (hraw : raw.length < 2 ^ 63) :
    Safe (parseName raw idx parentEnd) fun next => ∃ n : Name,
      Consumes raw idx parentEnd n.encode next := by
  unfold parseName
  refine Safe.bind (parseDataElement_safe hend hraw) ?_
  rintro ⟨start, nameEnd⟩ ⟨content, rest, h⟩
  have hle := h.start_le
  have hendle := h.end_le
  dsimp only at h hle hendle ⊢
  refine Safe.bind (nameLoop_safe (by omega) hraw _ _ hle (by omega)) ?_
  rintro next ⟨rfl, rs, hrs⟩
  rw [assertThat_eq (by simp), ok_bind, safe_ok]
  refine ⟨⟨rs⟩, ?_⟩
  rw [Name.encode, ← hrs, h.content_eq]
  exact h.consumes

theorem Name.parseName_eq (n : Name) {r : Bytes}
    (hw : window raw idx parentEnd = n.encode ++ r) (hend : parentEnd ≤ raw.length)
    (hraw : raw.length < 2 ^ 63) :
    parseName raw idx parentEnd = .ok (idx + n.encode.length) := by
  have h := Reads.of_window hw
  have hle := h.end_le
  unfold parseName
  rw [h.parseDataElement_eq hend hraw, ok_bind]
  dsimp only
  rw [nameLoop_eq (by omega) hraw n.rdns _ _ (Nat.le_add_right _ _) (by omega) h.content_eq,
    ok_bind, assertThat_eq (by simp), ok_bind]
  simp only [Name.encode, length_tlv, Nat.add_assoc]

/-! ## Version, validity and key -/

theorem parseVersion_safe (hend : parentEnd ≤ raw.length) (hraw : raw.length < 2 ^ 63) :
    Safe (parseVersion raw idx parentEnd) fun next =>
      Consumes raw idx parentEnd encodeVersion next := by
  unfold parseVersion
  refine Safe.bind (parseDataElement_safe hend hraw) ?_
  rintro ⟨start, explicitEnd⟩ ⟨content, rest, h⟩
  have hendle := h.end_le
  dsimp only at h hendle ⊢
  refine Safe.bind (parseDataElement_safe (by omega) hraw) ?_
  rintro ⟨vStart, versionEnd⟩ ⟨version, rest', h'⟩
  have hle' := h'.start_le
  have hlen' := h'.length_content
  dsimp only at h' hle' hlen' ⊢
  rw [usub_eq hle', ok_bind]
  refine Safe.ite (fun _ => safe_code _ _) fun hone => ?_
  obtain ⟨v, rfl⟩ := List.length_eq_one_iff.mp (show version.length = 1 by omega)
  rw [rawByte_of_window h'.content_eq, ok_bind]
  refine Safe.ite (fun _ => safe_code _ _) fun hv => ?_
  refine Safe.ite (fun _ => safe_code _ _) fun heq => ?_
  have hv' : v = x509AcceptedVersion := not_not.mp hv
  have heq' : versionEnd = explicitEnd := not_not.mp heq
  have hnil := (h'.rest_eq_nil_iff (by omega)).mpr heq'
  have hcontent : content = tlv derInteger [x509AcceptedVersion] := by
    rw [← h.content_eq, h'.window_eq, hnil, List.append_nil, hv']
  rw [safe_ok, heq', encodeVersion, ← hcontent]
  exact h.consumes

theorem parseVersion_eq {r : Bytes} (hw : window raw idx parentEnd = encodeVersion ++ r)
    (hend : parentEnd ≤ raw.length) (hraw : raw.length < 2 ^ 63) :
    parseVersion raw idx parentEnd = .ok (idx + encodeVersion.length) := by
  have h := Reads.of_window hw
  have hle := h.end_le
  have h' := Reads.of_window_eq h.content_eq
  unfold parseVersion
  rw [h.parseDataElement_eq hend hraw, ok_bind]
  dsimp only
  rw [h'.parseDataElement_eq (by omega) hraw, ok_bind]
  dsimp only [List.length_singleton]
  rw [usub_eq (by omega), ok_bind, if_neg (by omega), rawByte_of_window h'.content_eq, ok_bind,
    if_neg (by simp), if_neg (by rw [length_tlv]; simp only [List.length_singleton]; omega)]
  simp only [encodeVersion, length_tlv, List.length_singleton, Except.ok.injEq]
  omega

theorem parseValidity_safe (hend : parentEnd ≤ raw.length) (hraw : raw.length < 2 ^ 63) :
    Safe (parseValidity raw idx parentEnd) fun p => ∃ t t' : Time,
      Consumes raw idx parentEnd (tlv derSequence (t.encode ++ t'.encode)) p.1 ∧
        p.2 = (t.unixTime, t'.unixTime) := by
  unfold parseValidity
  refine Safe.bind (parseDataElement_safe hend hraw) ?_
  rintro ⟨start, validityEnd⟩ ⟨content, rest, h⟩
  have hendle := h.end_le
  dsimp only at h hendle ⊢
  refine Safe.bind (parseTime_safe (by omega) hraw) ?_
  rintro ⟨next, notBefore⟩ ⟨t, ht, rfl⟩
  dsimp only at ht ⊢
  refine Safe.bind (parseTime_safe (by omega) hraw) ?_
  rintro ⟨last, notAfter⟩ ⟨t', ht', rfl⟩
  dsimp only at ht' ⊢
  refine Safe.ite (fun _ => safe_code _ _) fun heq => ?_
  have heq' : last = validityEnd := not_not.mp heq
  subst heq'
  rw [safe_ok]
  refine ⟨t, t', ?_, rfl⟩
  rw [← (ht.trans ht').all, h.content_eq]
  exact h.consumes

theorem parseValidity_eq (t t' : Time) {r : Bytes}
    (hw : window raw idx parentEnd = tlv derSequence (t.encode ++ t'.encode) ++ r)
    (hend : parentEnd ≤ raw.length) (hraw : raw.length < 2 ^ 63) :
    parseValidity raw idx parentEnd =
      .ok (idx + (tlv derSequence (t.encode ++ t'.encode)).length, t.unixTime,
        t'.unixTime) := by
  have h := Reads.of_window hw
  have hle := h.end_le
  have hfirst := h.content_eq
  have hsecond := (of_window_append hfirst).2.trans (List.append_nil _).symm
  unfold parseValidity
  rw [h.parseDataElement_eq hend hraw, ok_bind]
  dsimp only
  rw [t.parseTime_eq hfirst (by omega) hraw, ok_bind]
  dsimp only
  rw [t'.parseTime_eq hsecond (by omega) hraw, ok_bind]
  dsimp only
  rw [if_neg (by rw [List.length_append]; omega)]
  simp only [length_tlv, List.length_append, Except.ok.injEq, Prod.mk.injEq, and_true]
  omega

theorem parsePublicKeyInfo_safe (hend : parentEnd ≤ raw.length) (hraw : raw.length < 2 ^ 63) :
    Safe (parsePublicKeyInfo raw idx parentEnd) fun p => ∃ k : SubjectPublicKeyInfo,
      Consumes raw idx parentEnd k.encode p.2.2 ∧
        p.1 = k.algorithm.at (idx + headerLength k.content) ∧
        p.2.1 + k.subjectPublicKey.length = p.2.2 := by
  unfold parsePublicKeyInfo
  refine Safe.bind (parseDataElement_safe hend hraw) ?_
  rintro ⟨start, infoEnd⟩ ⟨content, rest, h⟩
  have hendle := h.end_le
  dsimp only at h hendle ⊢
  refine Safe.bind (parseAlgId_safe (by omega) hraw) ?_
  rintro algId ⟨alg, halg, hat⟩
  refine Safe.bind (parseBitstringNoUnused_safe (by omega) hraw) ?_
  rintro ⟨keyStart, keyEnd⟩ ⟨bits, hbits, hstart⟩
  dsimp only at hbits hstart ⊢
  refine Safe.ite (fun _ => safe_code _ _) fun heq => ?_
  have heq' : keyEnd = infoEnd := not_not.mp heq
  subst heq'
  rw [safe_ok]
  have hcontent : content = (SubjectPublicKeyInfo.mk alg bits).content := by
    rw [← h.content_eq, (halg.trans hbits).all]
    rfl
  subst hcontent
  exact ⟨⟨alg, bits⟩, h.consumes, by rw [hat, h.start_eq], hstart⟩

theorem SubjectPublicKeyInfo.parsePublicKeyInfo_eq (k : SubjectPublicKeyInfo) {r : Bytes}
    (hw : window raw idx parentEnd = k.encode ++ r) (hend : parentEnd ≤ raw.length)
    (hraw : raw.length < 2 ^ 63) :
    parsePublicKeyInfo raw idx parentEnd =
      .ok (k.algorithm.at (idx + headerLength k.content),
        idx + k.encode.length - k.subjectPublicKey.length, idx + k.encode.length) := by
  have h := Reads.of_window hw
  have hle := h.end_le
  have halg := h.content_eq
  have hbits := (of_window_append halg).2.trans (List.append_nil _).symm
  unfold parsePublicKeyInfo
  rw [h.parseDataElement_eq hend hraw, ok_bind]
  dsimp only
  rw [k.algorithm.parseAlgId_eq halg (by omega) hraw, ok_bind]
  simp only [AlgorithmIdentifier.at]
  rw [parseBitstringNoUnused_eq hbits (by omega) hraw, ok_bind]
  dsimp only
  have hlen : k.content.length = k.algorithm.encode.length +
      (headerLength (0 :: k.subjectPublicKey) + (k.subjectPublicKey.length + 1)) := by
    rw [SubjectPublicKeyInfo.content, List.length_append, encodeBitstring, length_tlv,
      List.length_cons]
  have hbitlen : (encodeBitstring k.subjectPublicKey).length =
      headerLength (0 :: k.subjectPublicKey) + (k.subjectPublicKey.length + 1) := by
    rw [encodeBitstring, length_tlv, List.length_cons]
  rw [if_neg (by omega)]
  simp only [SubjectPublicKeyInfo.encode, length_tlv, Except.ok.injEq, Prod.mk.injEq, true_and]
  omega

end Components

end X509Server
