import X509Server.Analysis.ConsumeSpec
import X509Server.Interface.Fields

/-!
# The five extension handlers

A handler is called on the content of the extension's OCTET STRING.  It accepts exactly
the encodings of its body, which must fill the OCTET STRING, and its effect on the fields
is `Extension.apply`: for each of the five, `…_safe` is soundness with freedom from
faults and `…_eq` is completeness.
-/

set_option autoImplicit false

namespace X509Server

open Checked ByteWindow Der

section Handlers

variable {raw : Bytes} {idx extnEnd : ℕ} {fields : X509Fields}

/-! ## Basic constraints -/

/-- The shift loop folds the octets in front of it. -/
theorem pathLenLoop_eq {pathEnd : ℕ} (hend : pathEnd ≤ raw.length)
    (hraw : raw.length < 2 ^ 63) (ds : Bytes) (fuel idx : ℕ) (pathLen : UInt32)
    (hfuel : pathEnd - idx < fuel) (hw : window raw idx pathEnd = ds) :
    pathLenLoop raw pathEnd fuel idx pathLen =
      .ok (ds.foldl (fun v b => v <<< 8 ||| b.toUInt32) pathLen) := by
  induction ds generalizing fuel idx pathLen with
  | nil =>
    obtain ⟨fuel, rfl⟩ : ∃ k, fuel = k + 1 := ⟨fuel - 1, by omega⟩
    have hlen := length_window idx hend
    rw [hw, List.length_nil] at hlen
    unfold pathLenLoop
    rw [if_neg (by omega)]
    rfl
  | cons d ds ih =>
    obtain ⟨fuel, rfl⟩ : ∃ k, fuel = k + 1 := ⟨fuel - 1, by omega⟩
    obtain ⟨hlt, -, htail⟩ := of_window_cons hw
    unfold pathLenLoop
    rw [if_pos hlt, rawByte_of_window hw, ok_bind, uadd_eq (by omega), ok_bind,
      ih fuel (idx + 1) _ (by omega) htail]
    rfl

/-- The field's value behind an optional path length. -/
def pathLenValue (o : Option PathLength) (pathLen : UInt32) : UInt32 :=
  match o with
  | none => maxUint32
  | some p => p.shifted pathLen

theorem signBit_iff (b : UInt8) : b &&& 0x80 > 0 ↔ 128 ≤ b.toNat := longForm_iff b

theorem parsePathLen_safe {constraintEnd : ℕ} {pathLen : UInt32}
    (hend : constraintEnd ≤ raw.length) (hraw : raw.length < 2 ^ 63) :
    Safe (parsePathLen raw idx constraintEnd pathLen) fun p => ∃ o : Option PathLength,
      Consumes raw idx constraintEnd (optionalElement derInteger (o.map PathLength.octets)) p.1 ∧
        p.2 = pathLenValue o pathLen := by
  unfold parsePathLen
  refine Safe.bind (parseOptionalData_safe hend hraw) ?_
  rintro ⟨start, pathEnd⟩ ⟨o, h⟩
  cases h with
  | @present _ _ content rest h =>
    have hstart := h.idx_lt
    have hle := h.start_le
    have hendle := h.end_le
    have hlen := h.length_content
    dsimp only at hstart hle hendle hlen ⊢
    rw [if_pos (by simp only [idxNone]; omega)]
    refine Safe.ite (fun _ => safe_code _ _) fun hne => ?_
    obtain ⟨d, ds, rfl⟩ := List.exists_cons_of_length_pos (l := content) (by omega)
    rw [rawByte_of_window h.content_eq, ok_bind, usub_eq hle, ok_bind]
    refine Safe.ite (fun _ => safe_code _ _) fun hok => ?_
    rw [signBit_iff, not_or] at hok
    rw [pathLenLoop_eq (by omega) hraw _ _ _ _ (by omega) h.content_eq, ok_bind, safe_ok]
    refine ⟨some ⟨d :: ds, by simp, by omega, ?_⟩, h.consumes, rfl⟩
    intro b hb
    obtain rfl : d = b := by simpa using hb
    omega
  | absent h => exact ⟨none, Consumes.refl raw _ constraintEnd, rfl⟩

theorem parsePathLen_eq {constraintEnd : ℕ} {pathLen : UInt32} (o : Option PathLength)
    (hw : window raw idx constraintEnd = optionalElement derInteger (o.map PathLength.octets))
    (hend : constraintEnd ≤ raw.length) (hraw : raw.length < 2 ^ 63) :
    parsePathLen raw idx constraintEnd pathLen =
      .ok (idx + (optionalElement derInteger (o.map PathLength.octets)).length,
        pathLenValue o pathLen) := by
  unfold parsePathLen
  cases o with
  | none =>
    rw [parseOptionalData_absent (by rw [hw]; exact lacks_nil _) hend hraw, ok_bind]
    rfl
  | some p =>
    have h := Reads.of_window_eq hw
    have hstart := h.idx_lt
    have hle := h.end_le
    have hpos := p.pos
    have hfour := p.le_four
    have hcontent := h.content_eq
    obtain ⟨d, ds, hds⟩ := List.exists_cons_of_length_pos (l := p.octets) (by omega)
    have hsign := p.nonneg d (by rw [hds]; rfl)
    rw [h.parseOptionalData_eq hend hraw, ok_bind]
    dsimp only
    rw [if_pos (by simp only [idxNone]; omega), if_neg (by omega),
      rawByte_of_window (hcontent.trans hds), ok_bind, usub_eq (by omega), ok_bind,
      if_neg (by rw [signBit_iff]; omega),
      pathLenLoop_eq (by omega) hraw _ _ _ _ (by omega) hcontent, ok_bind]
    simp only [Option.map_some, optionalElement, length_tlv, Nat.add_assoc]
    rfl

theorem parseBasicConstraint_safe (hend : extnEnd ≤ raw.length) (hraw : raw.length < 2 ^ 63) :
    Safe (parseBasicConstraint raw idx extnEnd fields) fun f => ∃ body : BasicConstraints,
      window raw idx extnEnd = body.encode ∧
        f = (Extension.basicConstraints body).apply idx fields := by
  unfold parseBasicConstraint
  refine Safe.bind (parseDataElement_safe hend hraw) ?_
  rintro ⟨start, constraintEnd⟩ ⟨content, rest, h⟩
  have hstart := h.start_le
  have hendle := h.end_le
  dsimp only at h hstart hendle ⊢
  refine Safe.bind (parseDefaultBool_safe (by omega) hraw) ?_
  rintro ⟨next, keyCertSign⟩ hbool
  have hnext := hbool.le hstart
  dsimp only at hbool hnext ⊢
  -- the cursor cannot reach the extension's end before the SEQUENCE does
  have hfill : ∀ {s : Bytes} {last : ℕ}, Consumes raw start constraintEnd s last →
      last = extnEnd → window raw idx extnEnd = tlv derSequence s := by
    intro s last hs hlast
    have hle := hs.le hstart
    have heq : constraintEnd = extnEnd := by omega
    have hnil := (h.rest_eq_nil_iff hend).mpr heq
    rw [show last = constraintEnd by omega] at hs
    rw [h.window_eq, hnil, List.append_nil, ← h.content_eq, hs.all]
  cases keyCertSign with
  | false =>
    rw [ok_bind]
    refine Safe.ite (fun _ => safe_code _ _) fun hdone => ?_
    exact ⟨.notCa, hfill hbool (not_not.mp hdone), rfl⟩
  | true =>
    refine Safe.bind (parsePathLen_safe (by omega) hraw) ?_
    rintro ⟨last, pathLen⟩ ⟨o, ho, rfl⟩
    refine Safe.ite (fun _ => safe_code _ _) fun hdone => ?_
    refine ⟨.ca o, hfill (hbool.trans ho) (not_not.mp hdone), ?_⟩
    cases o <;> rfl

/-- Without the boolean the SEQUENCE is empty. -/
theorem BasicConstraints.parse_notCa (hw : window raw idx extnEnd = notCa.encode)
    (hend : extnEnd ≤ raw.length) (hraw : raw.length < 2 ^ 63) :
    ∃ first, parseDataElement raw derSequence idx extnEnd = .ok (first, extnEnd) ∧
      parseDefaultBool raw first extnEnd = .ok (extnEnd, false) := by
  have h := Reads.of_window_eq hw
  have hle := h.end_le
  have hdone := (h.rest_eq_nil_iff hend).mp rfl
  have hcontent : window raw _ _ = defaultFalse false ++ [] := h.content_eq
  have hbool := parseDefaultBool_eq hcontent (lacks_nil _) (by omega) hraw
  rw [hdone] at hbool
  refine ⟨_, ?_, hbool.trans ?_⟩
  · rw [h.parseDataElement_eq hend hraw, hdone]
  · conv_rhs => rw [← hdone]
    rfl

/-- The boolean of a certification authority, and the path length behind it. -/
theorem BasicConstraints.parse_ca (o : Option PathLength)
    (hw : window raw idx extnEnd = (ca o).encode) (hend : extnEnd ≤ raw.length)
    (hraw : raw.length < 2 ^ 63) :
    ∃ first next, parseDataElement raw derSequence idx extnEnd = .ok (first, extnEnd) ∧
      parseDefaultBool raw first extnEnd = .ok (next, true) ∧
      window raw next extnEnd = optionalElement derInteger (o.map PathLength.octets) ∧
      next + (optionalElement derInteger (o.map PathLength.octets)).length = extnEnd := by
  have h := Reads.of_window_eq hw
  have hle := h.end_le
  have hdone := (h.rest_eq_nil_iff hend).mp rfl
  have hcontent := h.content_eq
  have hpath := (of_window_append hcontent).2
  have hlacks : Lacks derBoolean (optionalElement derInteger (o.map PathLength.octets)) := by
    rw [← List.append_nil (optionalElement _ _)]
    exact lacks_optionalElement (by decide) (lacks_nil _)
  have hbool := parseDefaultBool_eq hcontent hlacks (by omega) hraw
  rw [hdone] at hbool hpath
  refine ⟨_, _, ?_, hbool, hpath, ?_⟩
  · rw [h.parseDataElement_eq hend hraw, hdone]
  · rw [List.length_append] at hdone
    omega

theorem BasicConstraints.parse_eq (body : BasicConstraints)
    (hw : window raw idx extnEnd = body.encode) (hend : extnEnd ≤ raw.length)
    (hraw : raw.length < 2 ^ 63) :
    parseBasicConstraint raw idx extnEnd fields =
      .ok ((Extension.basicConstraints body).apply idx fields) := by
  unfold parseBasicConstraint
  cases body with
  | notCa =>
    obtain ⟨first, hsequence, hbool⟩ := parse_notCa hw hend hraw
    rw [hsequence, ok_bind]
    dsimp only
    rw [hbool, ok_bind]
    dsimp only
    rw [ok_bind]
    dsimp only
    rw [if_neg (not_not.mpr rfl)]
    rfl
  | ca o =>
    obtain ⟨first, next, hsequence, hbool, hpath, hdone⟩ := parse_ca o hw hend hraw
    rw [hsequence, ok_bind]
    dsimp only
    rw [hbool, ok_bind]
    dsimp only
    rw [parsePathLen_eq o hpath hend hraw, ok_bind]
    dsimp only
    rw [if_neg (not_not.mpr hdone)]
    cases o <;> rfl

/-! ## Key identifiers -/

/-- The two skipped members behind the key identifier must end the SEQUENCE. -/
theorem skipAkidMembers_safe {start next : ℕ} {keyIdentifier : Option Bytes}
    {f : X509Fields}
    (hkey : Consumes raw start extnEnd (optionalElement derImplicit0 keyIdentifier) next)
    (hend : extnEnd ≤ raw.length) (hraw : raw.length < 2 ^ 63) :
    Safe (do
      let idx ← skipOptionalData raw (derImplicit1 ||| derConstructed) next extnEnd
      let idx ← skipOptionalData raw derImplicit2 idx extnEnd
      if idx ≠ extnEnd then reject .trailingData else .ok f) fun f' => ∃ issuer serial,
        window raw start extnEnd =
          (AuthorityKeyIdentifier.mk keyIdentifier issuer serial).content ∧ f' = f := by
  refine Safe.bind (skipOptionalData_safe hend hraw) ?_
  rintro idx ⟨issuer, hissuer⟩
  refine Safe.bind (skipOptionalData_safe hend hraw) ?_
  rintro last ⟨serial, hserial⟩
  refine Safe.ite (fun _ => safe_code _ _) fun heq => ?_
  obtain rfl : last = extnEnd := not_not.mp heq
  exact ⟨issuer, serial, (hkey.trans (hissuer.trans hserial)).all, rfl⟩

theorem parseAkid_safe (hend : extnEnd ≤ raw.length) (hraw : raw.length < 2 ^ 63) :
    Safe (parseAkid raw idx extnEnd fields) fun f => ∃ body : AuthorityKeyIdentifier,
      window raw idx extnEnd = body.encode ∧
        f = (Extension.authorityKeyIdentifier body).apply idx fields := by
  unfold parseAkid
  refine Safe.bind (parseDataElement_safe hend hraw) ?_
  rintro ⟨start, akidSeqEnd⟩ ⟨content, rest, h⟩
  have hstart := h.start_le
  have hstarteq := h.start_eq
  dsimp only at h hstart hstarteq ⊢
  refine Safe.ite (fun _ => safe_code _ _) fun heq => ?_
  obtain rfl : akidSeqEnd = extnEnd := not_not.mp heq
  have hnil := (h.rest_eq_nil_iff hend).mpr rfl
  have hwindow : window raw idx akidSeqEnd = tlv derSequence content := by
    rw [h.window_eq, hnil, List.append_nil]
  have hcontent := h.content_eq
  refine Safe.bind (parseOptionalData_safe hend hraw) ?_
  rintro ⟨idStart, idEnd⟩ ⟨o, ho⟩
  cases ho with
  | @present _ _ id rest' ho =>
    have hidx := ho.idx_lt
    have hidStart := ho.start_eq
    have hidEnd := ho.end_eq
    dsimp only at hidx hidStart hidEnd ⊢
    have hsome : idEnd ≠ idxNone := by
      simp only [idxNone]
      omega
    rw [if_pos hsome, if_pos hsome]
    have hkey : Consumes raw start akidSeqEnd (optionalElement derImplicit0 (some id)) idEnd :=
      ho.consumes
    refine (skipAkidMembers_safe hkey hend hraw).mono ?_
    rintro f ⟨issuer, serial, hmembers, rfl⟩
    have hbody : content = (AuthorityKeyIdentifier.mk (some id) issuer serial).content := by
      rw [← hcontent, hmembers]
    refine ⟨⟨some id, issuer, serial⟩, by rw [hwindow, hbody]; rfl, ?_⟩
    simp only [Extension.apply, ← hbody]
    rw [hidEnd, hidStart, hstarteq]
  | absent _ =>
    dsimp only
    have hnone : ¬ 0 ≠ idxNone := not_not.mpr rfl
    rw [if_neg hnone, if_neg hnone]
    have hkey : Consumes raw idStart akidSeqEnd (optionalElement derImplicit0 none) idStart :=
      Consumes.refl raw idStart akidSeqEnd
    refine (skipAkidMembers_safe hkey hend hraw).mono ?_
    rintro f ⟨issuer, serial, hmembers, rfl⟩
    have hbody : content = (AuthorityKeyIdentifier.mk none issuer serial).content := by
      rw [← hcontent, hmembers]
    exact ⟨⟨none, issuer, serial⟩, by rw [hwindow, hbody]; rfl, rfl⟩

/-- The two skipped members are passed over. -/
theorem skipAkidMembers_eq {next : ℕ} {issuer serial : Option Bytes} {f : X509Fields}
    (hw : window raw next extnEnd =
      optionalElement (derImplicit1 ||| derConstructed) issuer ++
        optionalElement derImplicit2 serial)
    (hnext : next ≤ extnEnd) (hend : extnEnd ≤ raw.length) (hraw : raw.length < 2 ^ 63) :
    (do
      let idx ← skipOptionalData raw (derImplicit1 ||| derConstructed) next extnEnd
      let idx ← skipOptionalData raw derImplicit2 idx extnEnd
      if idx ≠ extnEnd then reject .trailingData else .ok f) = .ok f := by
  have hserial := (of_window_append hw).2.trans (List.append_nil _).symm
  have hlen := length_window next hend
  rw [hw, List.length_append] at hlen
  have hlacks : Lacks (derImplicit1 ||| derConstructed) (optionalElement derImplicit2 serial) := by
    rw [← List.append_nil (optionalElement _ _)]
    exact lacks_optionalElement (by decide) (lacks_nil _)
  rw [skipOptionalData_eq hw hlacks hend hraw, ok_bind,
    skipOptionalData_eq hserial (lacks_nil _) hend hraw, ok_bind, if_neg (by omega)]

theorem AuthorityKeyIdentifier.parse_eq (body : AuthorityKeyIdentifier)
    (hw : window raw idx extnEnd = body.encode) (hend : extnEnd ≤ raw.length)
    (hraw : raw.length < 2 ^ 63) :
    parseAkid raw idx extnEnd fields =
      .ok ((Extension.authorityKeyIdentifier body).apply idx fields) := by
  have h := Reads.of_window_eq hw
  have hstart := h.start_le
  have hcontent := h.content_eq
  have hdone := (h.rest_eq_nil_iff hend).mp rfl
  rw [hdone] at hcontent hstart
  have hmembers := (of_window_append hcontent).2
  have hlacks : Lacks derImplicit0
      (optionalElement (derImplicit1 ||| derConstructed) body.authorityCertIssuer ++
        optionalElement derImplicit2 body.authorityCertSerialNumber) := by
    refine lacks_optionalElement (by decide) ?_
    rw [← List.append_nil (optionalElement _ _)]
    exact lacks_optionalElement (by decide) (lacks_nil _)
  unfold parseAkid
  rw [h.parseDataElement_eq hend hraw, ok_bind]
  dsimp only
  rw [if_neg (not_not.mpr hdone), hdone]
  obtain ⟨keyIdentifier, issuer, serial⟩ := body
  cases keyIdentifier with
  | none =>
    rw [parseOptionalData_absent (by rw [hcontent]; exact hlacks) hend hraw, ok_bind]
    dsimp only
    rw [if_neg (by simp), if_neg (by simp)]
    exact skipAkidMembers_eq hmembers hstart hend hraw
  | some id =>
    have hid := Reads.of_window hcontent
    have hidx := hid.idx_lt
    have hidle := hid.end_le
    rw [hid.parseOptionalData_eq hend hraw, ok_bind]
    dsimp only
    rw [if_pos (by simp only [idxNone]; omega), if_pos (by simp only [idxNone]; omega)]
    exact skipAkidMembers_eq hid.rest_eq (by omega) hend hraw

theorem parseSkid_safe (hend : extnEnd ≤ raw.length) (hraw : raw.length < 2 ^ 63) :
    Safe (parseSkid raw idx extnEnd fields) fun f => ∃ body,
      window raw idx extnEnd = tlv derOctetString body ∧
        f = (Extension.subjectKeyIdentifier body).apply idx fields := by
  unfold parseSkid
  refine Safe.bind (parseDataElement_safe hend hraw) ?_
  rintro ⟨start, skidEnd⟩ ⟨content, rest, h⟩
  have hstart := h.start_eq
  have hskid := h.end_eq
  dsimp only at h hstart hskid ⊢
  refine Safe.ite (fun _ => safe_code _ _) fun heq => ?_
  have hnil := (h.rest_eq_nil_iff hend).mpr (not_not.mp heq)
  refine ⟨content, by rw [h.window_eq, hnil, List.append_nil], ?_⟩
  simp only [Extension.apply]
  rw [hskid, hstart]

theorem parseSkid_eq {body : Bytes} (hw : window raw idx extnEnd = tlv derOctetString body)
    (hend : extnEnd ≤ raw.length) (hraw : raw.length < 2 ^ 63) :
    parseSkid raw idx extnEnd fields =
      .ok ((Extension.subjectKeyIdentifier body).apply idx fields) := by
  have h := Reads.of_window_eq hw
  have hdone := (h.rest_eq_nil_iff hend).mp rfl
  unfold parseSkid
  rw [h.parseDataElement_eq hend hraw, ok_bind]
  dsimp only
  rw [if_neg (not_not.mpr hdone)]
  rfl

/-! ## Key usage -/

/-- The last octet passes the check exactly if its lowest set bit is the one above the
unused bits. -/
theorem lastBit_iff {unused : UInt8} (h : unused.toNat < 8) (last : UInt8) :
    ¬ (last &&& (0x80 >>> (7 - unused)) = 0 ∨ last &&& (0x80 >>> (7 - unused) - 1) > 0) ↔
      last.toNat % 2 ^ (unused.toNat + 1) = 2 ^ unused.toNat := by
  obtain ⟨n, hn⟩ : ∃ n : Fin 8, unused = UInt8.ofNat n.val :=
    ⟨⟨unused.toNat, h⟩, (UInt8.ofNat_toNat).symm⟩
  subst hn
  revert last
  apply forall_octet
  revert n
  decide +kernel

theorem parseKeyUsage_safe (hend : extnEnd ≤ raw.length) (hraw : raw.length < 2 ^ 63) :
    Safe (parseKeyUsage raw idx extnEnd fields) fun f => ∃ body : KeyUsage,
      window raw idx extnEnd = body.encode ∧
        ∀ critical, f = (Extension.keyUsage critical body).apply idx fields := by
  unfold parseKeyUsage
  refine Safe.bind (parseDataElement_safe hend hraw) ?_
  rintro ⟨start, usageEnd⟩ ⟨content, rest, h⟩
  have hstart := h.start_le
  have hendle := h.end_le
  have hlen := h.length_content
  dsimp only at h hstart hendle hlen ⊢
  rw [usub_eq hstart, ok_bind]
  refine Safe.ite (fun _ => safe_code _ _) fun htwo => ?_
  refine Safe.ite (fun _ => safe_code _ _) fun hthree => ?_
  rw [not_or, not_not] at hthree
  obtain ⟨hdone, hthree⟩ := hthree
  have hnil := (h.rest_eq_nil_iff hend).mpr hdone
  have hwindow : window raw idx extnEnd = tlv derBitstring content := by
    rw [h.window_eq, hnil, List.append_nil]
  have hcontent := h.content_eq
  obtain ⟨unused, first, second, rfl⟩ :
      ∃ unused first, ∃ second : Option UInt8, content = unused :: first :: second.toList := by
    match content, hlen with
    | [unused, first], _ => exact ⟨unused, first, none, rfl⟩
    | [unused, first, second], _ => exact ⟨unused, first, some second, rfl⟩
    | [], hlen | [_], hlen | _ :: _ :: _ :: _ :: _, hlen =>
      simp only [List.length_nil, List.length_cons] at hlen
      omega
  obtain ⟨-, -, hfirst⟩ := of_window_cons hcontent
  have hlast : raw[usageEnd - 1]? = some (second.getD first) := by
    cases second with
    | none => exact getElem?_last_of_window (w := [unused]) hcontent (by omega)
    | some second => exact getElem?_last_of_window (w := [unused, first]) hcontent (by omega)
  rw [rawByte_of_window hcontent, ok_bind]
  refine Safe.ite (fun _ => safe_code _ _) fun hunused => ?_
  have hunused' : unused.toNat < 8 := UInt8.not_le.mp hunused
  rw [usub_eq (by omega), ok_bind, rawByte_eq hlast, ok_bind]
  refine Safe.ite (fun _ => safe_code _ _) fun hbit => ?_
  have hbit' := (lastBit_iff hunused' _).mp hbit
  rw [uadd_eq (by omega), ok_bind, rawByte_of_window hfirst, ok_bind, uadd_eq (by omega),
    ok_bind]
  cases second with
  | none =>
    simp only [Option.toList_none, List.length_cons, List.length_nil] at hlen
    rw [if_neg (by omega), safe_ok]
    exact ⟨⟨unused, first, none, hunused', hbit'⟩, hwindow, fun _ => rfl⟩
  | some second =>
    simp only [Option.toList_some, List.length_cons, List.length_nil] at hlen
    rw [if_pos (by omega), rawByte_of_window (of_window_cons hfirst).2.2, ok_bind, safe_ok]
    refine ⟨⟨unused, first, some second, hunused', hbit'⟩, hwindow, fun _ => ?_⟩
    simp only [Extension.apply, KeyUsage.flags, UInt32.or_assoc]

theorem KeyUsage.parse_eq (body : KeyUsage) (critical : Bool)
    (hw : window raw idx extnEnd = body.encode) (hend : extnEnd ≤ raw.length)
    (hraw : raw.length < 2 ^ 63) :
    parseKeyUsage raw idx extnEnd fields =
      .ok ((Extension.keyUsage critical body).apply idx fields) := by
  have h := Reads.of_window_eq hw
  have hdone := (h.rest_eq_nil_iff hend).mp rfl
  have hlen := h.length_content
  have hcontent := h.content_eq
  rw [hdone] at hcontent hlen
  unfold parseKeyUsage
  rw [h.parseDataElement_eq hend hraw, ok_bind]
  dsimp only
  rw [hdone]
  generalize idx + headerLength (body.unused :: body.octets) = start at *
  obtain ⟨unused, first, second, hunused, hbit⟩ := body
  simp only [KeyUsage.octets] at hcontent hlen hunused hbit
  obtain ⟨-, -, hfirst⟩ := of_window_cons hcontent
  have hlast : raw[extnEnd - 1]? = some (second.getD first) := by
    cases second with
    | none => exact getElem?_last_of_window (w := [unused]) hcontent hend
    | some second => exact getElem?_last_of_window (w := [unused, first]) hcontent hend
  have hbit' := (lastBit_iff hunused _).mpr hbit
  have hsize : extnEnd = start + 2 + second.toList.length := by
    simp only [List.length_cons] at hlen
    omega
  have hsecond : second.toList.length ≤ 1 := by cases second <;> simp
  rw [usub_eq (by omega), ok_bind, if_neg (by omega),
    if_neg (by rw [not_or, not_not]; exact ⟨rfl, by omega⟩), rawByte_of_window hcontent, ok_bind,
    if_neg (UInt8.not_le.mpr hunused), usub_eq (by omega), ok_bind, rawByte_eq hlast, ok_bind,
    if_neg hbit',
    uadd_eq (by omega), ok_bind, rawByte_of_window hfirst, ok_bind, uadd_eq (by omega), ok_bind]
  cases second with
  | none =>
    simp only [Option.toList_none, List.length_nil] at hsize
    rw [if_neg (by omega)]
    rfl
  | some second =>
    simp only [Option.toList_some, List.length_cons, List.length_nil] at hsize
    rw [if_pos (by omega), rawByte_of_window (of_window_cons hfirst).2.2, ok_bind]
    simp only [Extension.apply, KeyUsage.flags, UInt32.or_assoc]

/-! ## Extended key usage -/

/-- One purpose contributes its flag. -/
theorem parsePurpose_eq {purposeEnd : ℕ} {purpose : Bytes} (hidx : idx ≤ purposeEnd)
    (hend : purposeEnd ≤ raw.length)
    (hw : window raw idx purposeEnd = purpose) (flags : UInt32) :
    parsePurpose raw idx purposeEnd flags = .ok (flags ||| purposeFlagOf purpose) := by
  have hlen := length_window idx hend
  rw [hw] at hlen
  have hkp : kpOid.length = 8 := rfl
  unfold parsePurpose purposeFlagOf
  rw [usub_eq hidx, ok_bind]
  by_cases hsize : purpose.length = kpOid.length
  · rw [if_neg (by omega), rawRange_eq (by omega), ok_bind]
    obtain ⟨w, last, rfl⟩ : ∃ w last, purpose = w ++ [last] :=
      ⟨purpose.dropLast, purpose.getLast (by rintro rfl; simp [hkp] at hsize),
        (List.dropLast_append_getLast _).symm⟩
    have hwlen : w.length = kpOid.length - 1 := by
      rw [List.length_append, List.length_singleton] at hsize
      omega
    have hstart := (of_window_append hw).1
    rw [hwlen] at hstart
    have htake : (w ++ [last]).take (kpOid.length - 1) = w := by
      rw [← hwlen, List.take_left]
    rw [hstart, htake]
    by_cases hstart : w = kpOid.take (kpOid.length - 1)
    · rw [if_neg (not_not.mpr hstart), usub_eq (by omega), ok_bind,
        rawByte_eq (getElem?_last_of_window hw hend), ok_bind, if_pos ⟨hsize, hstart⟩]
      simp
    · rw [if_pos hstart, if_neg (fun h => hstart h.2), UInt32.or_zero]
  · rw [if_pos (by omega), if_neg (fun h => hsize h.1), UInt32.or_zero]

/-- The purpose loop reads the rest of the SEQUENCE. -/
theorem extKeyUsageLoop_safe {usageEnd : ℕ} (hend : usageEnd ≤ raw.length)
    (hraw : raw.length < 2 ^ 63) (fuel idx : ℕ) (flags : UInt32) (hidx : idx ≤ usageEnd)
    (hfuel : usageEnd - idx < fuel) :
    Safe (extKeyUsageLoop raw usageEnd fuel idx flags) fun p => p.1 = usageEnd ∧
      ∃ purposes, window raw idx usageEnd = Extension.encodePurposes purposes ∧
        p.2 = purposeFlags purposes flags := by
  induction fuel generalizing idx flags with
  | zero => omega
  | succ fuel ih =>
    unfold extKeyUsageLoop
    refine Safe.ite (fun hlt => ?_) fun hge => ?_
    · refine Safe.bind (parseDataElement_safe hend hraw) ?_
      rintro ⟨start, purposeEnd⟩ ⟨purpose, rest, h⟩
      have hlt' := h.idx_lt
      have hle := h.start_le
      have hendle := h.end_le
      dsimp only at h hlt' hle hendle ⊢
      rw [parsePurpose_eq hle (by omega) h.content_eq, ok_bind]
      refine (ih purposeEnd _ (by omega) (by omega)).mono ?_
      rintro ⟨last, flags'⟩ ⟨hlast, purposes, hw, hflags⟩
      refine ⟨hlast, purpose :: purposes, ?_, hflags⟩
      rw [h.consumes.window_eq, hw]
      rfl
    · rw [safe_ok]
      have hdone : idx = usageEnd := by omega
      exact ⟨hdone, [], window_eq_nil (by omega), rfl⟩

/-- The purpose loop passes over encoded purposes. -/
theorem extKeyUsageLoop_eq {usageEnd : ℕ} (hend : usageEnd ≤ raw.length)
    (hraw : raw.length < 2 ^ 63) (purposes : List Bytes) (fuel idx : ℕ) (flags : UInt32)
    (hidx : idx ≤ usageEnd) (hfuel : usageEnd - idx < fuel)
    (hw : window raw idx usageEnd = Extension.encodePurposes purposes) :
    extKeyUsageLoop raw usageEnd fuel idx flags =
      .ok (usageEnd, purposeFlags purposes flags) := by
  induction purposes generalizing fuel idx flags with
  | nil =>
    obtain ⟨fuel, rfl⟩ : ∃ k, fuel = k + 1 := ⟨fuel - 1, by omega⟩
    have hlen := length_window idx hend
    rw [hw, Extension.encodePurposes, List.flatMap_nil, List.length_nil] at hlen
    unfold extKeyUsageLoop
    rw [if_neg (by omega), show idx = usageEnd by omega]
    rfl
  | cons purpose purposes ih =>
    obtain ⟨fuel, rfl⟩ : ∃ k, fuel = k + 1 := ⟨fuel - 1, by omega⟩
    have hw' : window raw idx usageEnd =
      tlv derOid purpose ++ Extension.encodePurposes purposes := hw
    have h := Reads.of_window hw'
    have hlt := h.idx_lt
    have hle := h.start_le
    have hendle := h.end_le
    unfold extKeyUsageLoop
    rw [if_pos (by omega), h.parseDataElement_eq hend hraw, ok_bind]
    dsimp only
    rw [parsePurpose_eq hle (by omega) h.content_eq, ok_bind]
    exact ih fuel _ _ (by omega) (by omega) h.rest_eq

theorem parseExtKeyUsage_safe (hend : extnEnd ≤ raw.length) (hraw : raw.length < 2 ^ 63) :
    Safe (parseExtKeyUsage raw idx extnEnd fields) fun f => ∃ purposes,
      window raw idx extnEnd = tlv derSequence (Extension.encodePurposes purposes) ∧
        ∀ critical, f = (Extension.extKeyUsage critical purposes).apply idx fields := by
  unfold parseExtKeyUsage
  refine Safe.bind (parseDataElement_safe hend hraw) ?_
  rintro ⟨start, usageEnd⟩ ⟨content, rest, h⟩
  have hstart := h.start_le
  have hendle := h.end_le
  dsimp only at h hstart hendle ⊢
  refine Safe.ite (fun _ => safe_code _ _) fun heq => ?_
  have hnil := (h.rest_eq_nil_iff hend).mpr (not_not.mp heq)
  refine Safe.bind (extKeyUsageLoop_safe (by omega) hraw _ _ _ hstart (by omega)) ?_
  rintro ⟨last, flags⟩ ⟨hlast, purposes, hw, hflags⟩
  dsimp only at hlast hflags ⊢
  rw [assertThat_eq (by simpa using hlast), ok_bind, safe_ok]
  refine ⟨purposes, ?_, fun _ => by rw [hflags]; rfl⟩
  rw [h.window_eq, hnil, List.append_nil, ← h.content_eq, hw]

theorem parseExtKeyUsage_eq {purposes : List Bytes} (critical : Bool)
    (hw : window raw idx extnEnd = tlv derSequence (Extension.encodePurposes purposes))
    (hend : extnEnd ≤ raw.length) (hraw : raw.length < 2 ^ 63) :
    parseExtKeyUsage raw idx extnEnd fields =
      .ok ((Extension.extKeyUsage critical purposes).apply idx fields) := by
  have h := Reads.of_window_eq hw
  have hstart := h.start_le
  have hcontent := h.content_eq
  have hdone := (h.rest_eq_nil_iff hend).mp rfl
  unfold parseExtKeyUsage
  rw [h.parseDataElement_eq hend hraw, ok_bind]
  dsimp only
  rw [if_neg (not_not.mpr hdone),
    extKeyUsageLoop_eq (by omega) hraw purposes _ _ _ hstart (by omega) hcontent, ok_bind]
  dsimp only
  rw [assertThat_eq (by simp), ok_bind]
  rfl

end Handlers

end X509Server
