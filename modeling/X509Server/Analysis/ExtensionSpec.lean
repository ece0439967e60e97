import X509Server.Analysis.HandlerSpec

/-!
# The extension list

`ReadsExtension` is what `parseExtnHeader` finds: the OID, the criticality and the value
of an extension, with their positions.  `dispatchExtn` turns them into a member of
`Extension` or rejects; the loop adds the two rules about the list as a whole, at most
`MAX_EXTN` members and no OID twice.
-/

set_option autoImplicit false

namespace X509Server

open Checked ByteWindow Der

section Extensions

variable {raw : Bytes} {idx extensionsEnd : ℕ}

/-! ## Headers -/

/-- The content of an extension with any OID, criticality and value. -/
def extensionContent (oid : Bytes) (critical : Bool) (value : Bytes) : Bytes :=
  tlv derOid oid ++ (defaultFalse critical ++ tlv derOctetString value)

/-- At `idx` there stands an extension whose parts lie where the header says. -/
structure ReadsExtension (raw : Bytes) (idx extensionsEnd : ℕ) (header : ExtnHeader)
    (oid value : Bytes) : Prop where
  consumes : Consumes raw idx extensionsEnd
    (tlv derSequence (extensionContent oid header.critical value)) header.extnEnd
  oidStart_le : header.oidStart ≤ header.oidEnd
  oidEnd_le : header.oidEnd ≤ header.extnEnd
  oid_eq : window raw header.oidStart header.oidEnd = oid
  valueStart_eq : header.valueStart = idx +
    (headerLength (extensionContent oid header.critical value) + (tlv derOid oid).length +
      (defaultFalse header.critical).length + headerLength value)
  value_eq : window raw header.valueStart header.extnEnd = value

/-- The range of the OID, as the loop records it. -/
theorem ReadsExtension.oid_window {header : ExtnHeader} {oid value : Bytes}
    (h : ReadsExtension raw idx extensionsEnd header oid value) :
    window raw header.oidStart (header.oidStart + (header.oidEnd - header.oidStart)) = oid := by
  have hle := h.oidStart_le
  have hsize : header.oidStart + (header.oidEnd - header.oidStart) = header.oidEnd := by omega
  rw [hsize, h.oid_eq]

theorem parseExtnHeader_safe (hend : extensionsEnd ≤ raw.length)
    (hraw : raw.length < 2 ^ 63) :
    Safe (parseExtnHeader raw idx extensionsEnd) fun header => ∃ oid value,
      ReadsExtension raw idx extensionsEnd header oid value := by
  unfold parseExtnHeader
  refine Safe.bind (parseDataElement_safe hend hraw) ?_
  rintro ⟨start, extensionEnd⟩ ⟨content, rest, h⟩
  have hstart := h.start_eq
  have hstartle := h.start_le
  have hendle := h.end_le
  dsimp only at h hstart hstartle hendle ⊢
  refine Safe.bind (parseDataElement_safe (by omega) hraw) ?_
  rintro ⟨oidStart, oidEnd⟩ ⟨oid, rest', hoid⟩
  have hoidle := hoid.start_le
  have hoidend := hoid.end_le
  have hoidnext := hoid.consumes.next_eq
  dsimp only at hoid hoidle hoidend hoidnext ⊢
  refine Safe.bind (parseDefaultBool_safe (by omega) hraw) ?_
  rintro ⟨next, critical⟩ hcritical
  have hnext := hcritical.next_eq
  dsimp only at hcritical hnext ⊢
  refine Safe.bind (parseDataElement_safe (by omega) hraw) ?_
  rintro ⟨valueStart, extnEnd⟩ ⟨value, rest'', hvalue⟩
  have hvalueStart := hvalue.start_eq
  dsimp only at hvalue hvalueStart ⊢
  refine Safe.ite (fun _ => safe_code _ _) fun heq => ?_
  obtain rfl : extnEnd = extensionEnd := not_not.mp heq
  have hcontent : content = extensionContent oid critical value := by
    rw [← h.content_eq, (hoid.consumes.trans (hcritical.trans hvalue.consumes)).all]
    rfl
  subst hcontent
  rw [safe_ok]
  refine ⟨oid, value, h.consumes, hoidle, by simp only; omega, hoid.content_eq, ?_,
    hvalue.content_eq⟩
  simp only
  omega

theorem parseExtnHeader_eq {oid value r : Bytes} {critical : Bool}
    (hw : window raw idx extensionsEnd =
      tlv derSequence (extensionContent oid critical value) ++ r)
    (hend : extensionsEnd ≤ raw.length) (hraw : raw.length < 2 ^ 63) :
    ∃ header, parseExtnHeader raw idx extensionsEnd = .ok header ∧
      header.critical = critical ∧ ReadsExtension raw idx extensionsEnd header oid value := by
  have h := Reads.of_window hw
  have hendle := h.end_le
  have hoid := Reads.of_window h.content_eq
  have hoidle := hoid.end_le
  have hcritical := hoid.rest_eq
  have hvalue := Reads.of_window_eq (of_window_append hcritical).2
  have hdone := (hvalue.rest_eq_nil_iff (by omega)).mp rfl
  have hlacks : Lacks derBoolean (tlv derOctetString value) := by
    rw [← List.append_nil (tlv _ _)]
    exact lacks_tlv _ _ (by decide)
  have hoidstart := hoid.start_le
  have hvaluecontent := hvalue.content_eq
  rw [hdone] at hvaluecontent
  refine ⟨{ oidStart := idx + headerLength (extensionContent oid critical value) +
              headerLength oid
            oidEnd := idx + headerLength (extensionContent oid critical value) +
              headerLength oid + oid.length
            critical
            valueStart := idx + headerLength (extensionContent oid critical value) +
              headerLength oid + oid.length + (defaultFalse critical).length +
                headerLength value
            extnEnd := idx + headerLength (extensionContent oid critical value) +
              (extensionContent oid critical value).length }, ?_, rfl, ?_⟩
  · unfold parseExtnHeader
    rw [h.parseDataElement_eq hend hraw, ok_bind]
    dsimp only
    rw [hoid.parseDataElement_eq (by omega) hraw, ok_bind]
    dsimp only
    rw [parseDefaultBool_eq hcritical hlacks (by omega) hraw, ok_bind]
    dsimp only
    rw [hvalue.parseDataElement_eq (by omega) hraw, ok_bind]
    dsimp only
    rw [if_neg (not_not.mpr hdone), hdone]
  · refine ⟨h.consumes, hoidstart, by simp only; omega, hoid.content_eq, ?_, hvaluecontent⟩
    simp only [length_tlv]
    omega

/-- The header of the first extension of a list; behind it there stands the rest. -/
theorem Extension.parseExtnHeader_eq (x : Extension) {xs : List Extension}
    (hw : window raw idx extensionsEnd = encodeExtensions (x :: xs))
    (hend : extensionsEnd ≤ raw.length) (hraw : raw.length < 2 ^ 63) :
    ∃ header, parseExtnHeader raw idx extensionsEnd = .ok header ∧
      header.critical = x.critical ∧
      ReadsExtension raw idx extensionsEnd header x.oid x.value ∧
      window raw header.extnEnd extensionsEnd = encodeExtensions xs := by
  have hw' : window raw idx extensionsEnd =
    tlv derSequence (extensionContent x.oid x.critical x.value) ++ encodeExtensions xs := hw
  obtain ⟨header, hparse, hcritical, h⟩ := X509Server.parseExtnHeader_eq hw' hend hraw
  refine ⟨header, hparse, hcritical, h, ?_⟩
  have happ := h.consumes.window_eq
  rw [hw', hcritical] at happ
  exact (List.append_cancel_left happ).symm

/-! ## Duplicates -/

/-- The OIDs the recorded ranges show. -/
def seenOids (raw : Bytes) (seen : List (ℕ × ℕ)) : List Bytes :=
  seen.map fun p => window raw p.1 (p.1 + p.2)

theorem seenOids_record {oidStart oidSize : ℕ} {oid : Bytes}
    (hoid : window raw oidStart (oidStart + oidSize) = oid) (seen : List (ℕ × ℕ)) :
    seenOids raw (seen ++ [(oidStart, oidSize)]) = seenOids raw seen ++ [oid] := by
  simp only [seenOids, List.map_append, List.map_cons, List.map_nil, hoid]

/-- A recorded range lies in the certificate if the new one does. -/
theorem seen_record {oidStart oidSize : ℕ} (hsize : oidStart + oidSize ≤ raw.length)
    {seen : List (ℕ × ℕ)} (hseen : ∀ p ∈ seen, p.1 + p.2 ≤ raw.length) :
    ∀ p ∈ seen ++ [(oidStart, oidSize)], p.1 + p.2 ≤ raw.length := by
  intro p hp
  rw [List.mem_append, List.mem_singleton] at hp
  rcases hp with hp | rfl
  · exact hseen p hp
  · exact hsize

/-- The scan compares OIDs. -/
theorem checkDuplicate_eq {oidStart oidSize : ℕ} (hoid : oidStart + oidSize ≤ raw.length)
    (seen : List (ℕ × ℕ)) (hseen : ∀ p ∈ seen, p.1 + p.2 ≤ raw.length) :
    checkDuplicate raw oidStart oidSize seen =
      if window raw oidStart (oidStart + oidSize) ∈ seenOids raw seen then
        reject .duplicateExtns
      else .ok () := by
  induction seen with
  | nil => rfl
  | cons p seen ih =>
    obtain ⟨start, size⟩ := p
    have hhead : start + size ≤ raw.length := hseen (start, size) (by simp)
    unfold checkDuplicate
    rw [memeq_eq hhead hoid, ok_bind, ih fun q hq => hseen q (by simp [hq])]
    by_cases hsame : window raw start (start + size) = window raw oidStart (oidStart + oidSize)
    · rw [if_pos (by simpa using hsame), if_pos (by simp [seenOids, hsame])]
    · rw [if_neg (by simpa using hsame)]
      exact if_congr (by simp [seenOids, Ne.symm hsame]) rfl rfl

/-! ## Dispatch -/

section Dispatch

variable {header : ExtnHeader} {oid value : Bytes} {fields : X509Fields}
  {extn : SupportedExtn} {extns : List SupportedExtn}

/-- The criticality an entry of the table demands. -/
def SupportedExtn.Admits (extn : SupportedExtn) (critical : Bool) : Prop :=
  ¬ (extn.criticality &&& 0b10 > 0 ∧ extn.criticality &&& 0b01 ≠ critical.toNat)

/-- One entry of the table: it handles its own OID and passes others on. -/
theorem dispatchExtn_cons {oidSize : ℕ} (hsize : header.oidStart + oidSize ≤ raw.length) :
    dispatchExtn raw header oidSize fields (extn :: extns) =
      if extn.oid = window raw header.oidStart (header.oidStart + oidSize) then
        if extn.criticality &&& 0b10 > 0 ∧
            extn.criticality &&& 0b01 ≠ header.critical.toNat then
          reject .invalidCriticality
        else extn.parseExtn raw header.valueStart header.extnEnd fields
      else dispatchExtn raw header oidSize fields extns := by
  rw [dispatchExtn, memeqConst_eq hsize, ok_bind]
  by_cases h : extn.oid = window raw header.oidStart (header.oidStart + oidSize)
  · rw [if_pos (by simpa using h), if_pos h]
  · rw [if_neg (by simpa using h), if_neg h]

theorem dispatchExtn_cons_safe {oidSize : ℕ} {Q : X509Fields → Prop}
    (hsize : header.oidStart + oidSize ≤ raw.length)
    (hoid : window raw header.oidStart (header.oidStart + oidSize) = oid)
    (htake : oid = extn.oid → extn.Admits header.critical →
      Safe (extn.parseExtn raw header.valueStart header.extnEnd fields) Q)
    (hskip : oid ≠ extn.oid → Safe (dispatchExtn raw header oidSize fields extns) Q) :
    Safe (dispatchExtn raw header oidSize fields (extn :: extns)) Q := by
  rw [dispatchExtn_cons hsize, hoid]
  refine Safe.ite (fun h => ?_) fun h => hskip (Ne.symm h)
  exact Safe.ite (fun _ => safe_code _ _) fun hadmits => htake h.symm hadmits

theorem dispatchExtn_take {oidSize : ℕ} (hsize : header.oidStart + oidSize ≤ raw.length)
    (hoid : window raw header.oidStart (header.oidStart + oidSize) = extn.oid)
    (hadmits : extn.Admits header.critical) :
    dispatchExtn raw header oidSize fields (extn :: extns) =
      extn.parseExtn raw header.valueStart header.extnEnd fields := by
  rw [dispatchExtn_cons hsize, if_pos hoid.symm]
  exact if_neg hadmits

theorem dispatchExtn_skip {oidSize : ℕ} (hsize : header.oidStart + oidSize ≤ raw.length)
    (hoid : window raw header.oidStart (header.oidStart + oidSize) = oid)
    (hne : extn.oid ≠ oid) :
    dispatchExtn raw header oidSize fields (extn :: extns) =
      dispatchExtn raw header oidSize fields extns := by
  rw [dispatchExtn_cons hsize, hoid]
  exact if_neg hne

/-- What the table accepts is an extension of the grammar, with its effect. -/
theorem dispatchExtn_safe {oidSize : ℕ} (hsize : header.oidStart + oidSize ≤ raw.length)
    (hoid : window raw header.oidStart (header.oidStart + oidSize) = oid)
    (hvalue : window raw header.valueStart header.extnEnd = value)
    (hend : header.extnEnd ≤ raw.length) (hraw : raw.length < 2 ^ 63) :
    Safe (dispatchExtn raw header oidSize fields supportedExtns) fun f =>
      ∃ x : Extension, x.oid = oid ∧ x.critical = header.critical ∧ x.value = value ∧
        f = x.apply header.valueStart fields := by
  unfold supportedExtns
  refine dispatchExtn_cons_safe hsize hoid (fun h hcrit => ?_) fun h0 => ?_
  · refine (parseBasicConstraint_safe hend hraw).mono ?_
    rintro f ⟨body, hw, rfl⟩
    have hcritical : header.critical = true := by
      revert hcrit
      cases header.critical <;> simp [SupportedExtn.Admits]
    exact ⟨.basicConstraints body, h.symm, hcritical.symm, hw.symm.trans hvalue, rfl⟩
  refine dispatchExtn_cons_safe hsize hoid (fun h hcrit => ?_) fun h1 => ?_
  · refine (parseAkid_safe hend hraw).mono ?_
    rintro f ⟨body, hw, rfl⟩
    have hcritical : header.critical = false := by
      revert hcrit
      cases header.critical <;> simp [SupportedExtn.Admits]
    exact ⟨.authorityKeyIdentifier body, h.symm, hcritical.symm, hw.symm.trans hvalue, rfl⟩
  refine dispatchExtn_cons_safe hsize hoid (fun h hcrit => ?_) fun h2 => ?_
  · refine (parseSkid_safe hend hraw).mono ?_
    rintro f ⟨body, hw, rfl⟩
    have hcritical : header.critical = false := by
      revert hcrit
      cases header.critical <;> simp [SupportedExtn.Admits]
    exact ⟨.subjectKeyIdentifier body, h.symm, hcritical.symm, hw.symm.trans hvalue, rfl⟩
  refine dispatchExtn_cons_safe hsize hoid (fun h _ => ?_) fun h3 => ?_
  · refine (parseKeyUsage_safe hend hraw).mono ?_
    rintro f ⟨body, hw, hf⟩
    exact ⟨.keyUsage header.critical body, h.symm, rfl, hw.symm.trans hvalue, hf _⟩
  refine dispatchExtn_cons_safe hsize hoid (fun h _ => ?_) fun h4 => ?_
  · refine (parseExtKeyUsage_safe hend hraw).mono ?_
    rintro f ⟨purposes, hw, hf⟩
    exact ⟨.extKeyUsage header.critical purposes, h.symm, rfl, hw.symm.trans hvalue, hf _⟩
  unfold dispatchExtn
  refine Safe.ite (fun _ => safe_code _ _) fun hcrit => ?_
  have hnew : oid ∉ supportedOids := by
    simp only [supportedOids, List.mem_cons, List.not_mem_nil, or_false, not_or]
    exact ⟨h0, h1, h2, h3, h4⟩
  exact ⟨.unrecognized oid value hnew, rfl, (Bool.not_eq_true _ ▸ hcrit : _ = false).symm,
    rfl, rfl⟩

/-- An extension of the grammar is accepted, with its effect. -/
theorem Extension.dispatchExtn_eq (x : Extension) {oidSize : ℕ}
    (hsize : header.oidStart + oidSize ≤ raw.length)
    (hoid : window raw header.oidStart (header.oidStart + oidSize) = x.oid)
    (hcritical : header.critical = x.critical)
    (hvalue : window raw header.valueStart header.extnEnd = x.value)
    (hend : header.extnEnd ≤ raw.length) (hraw : raw.length < 2 ^ 63) :
    dispatchExtn raw header oidSize fields supportedExtns =
      .ok (x.apply header.valueStart fields) := by
  unfold supportedExtns
  cases x with
  | basicConstraints body =>
    rw [dispatchExtn_take hsize hoid (by simp [SupportedExtn.Admits, hcritical, critical])]
    exact body.parse_eq hvalue hend hraw
  | authorityKeyIdentifier body =>
    rw [dispatchExtn_skip hsize hoid (by simp only [oid]; decide),
      dispatchExtn_take hsize hoid (by simp [SupportedExtn.Admits, hcritical, critical])]
    exact body.parse_eq hvalue hend hraw
  | subjectKeyIdentifier body =>
    rw [dispatchExtn_skip hsize hoid (by simp only [oid]; decide),
      dispatchExtn_skip hsize hoid (by simp only [oid]; decide),
      dispatchExtn_take hsize hoid (by simp [SupportedExtn.Admits, hcritical, critical])]
    exact parseSkid_eq hvalue hend hraw
  | keyUsage crit body =>
    rw [dispatchExtn_skip hsize hoid (by simp only [oid]; decide),
      dispatchExtn_skip hsize hoid (by simp only [oid]; decide),
      dispatchExtn_skip hsize hoid (by simp only [oid]; decide),
      dispatchExtn_take hsize hoid (by simp [SupportedExtn.Admits])]
    exact body.parse_eq crit hvalue hend hraw
  | extKeyUsage crit purposes =>
    rw [dispatchExtn_skip hsize hoid (by simp only [oid]; decide),
      dispatchExtn_skip hsize hoid (by simp only [oid]; decide),
      dispatchExtn_skip hsize hoid (by simp only [oid]; decide),
      dispatchExtn_skip hsize hoid (by simp only [oid]; decide),
      dispatchExtn_take hsize hoid (by simp [SupportedExtn.Admits])]
    exact parseExtKeyUsage_eq crit hvalue hend hraw
  | unrecognized oid value unsupported =>
    simp only [supportedOids, List.mem_cons, List.not_mem_nil, or_false, not_or] at unsupported
    obtain ⟨h0, h1, h2, h3, h4⟩ := unsupported
    rw [dispatchExtn_skip hsize hoid (by exact Ne.symm h0),
      dispatchExtn_skip hsize hoid (by exact Ne.symm h1),
      dispatchExtn_skip hsize hoid (by exact Ne.symm h2),
      dispatchExtn_skip hsize hoid (by exact Ne.symm h3),
      dispatchExtn_skip hsize hoid (by exact Ne.symm h4), dispatchExtn, hcritical]
    rfl

end Dispatch

/-! ## The loop -/

/-- The loop reads the rest of the list; the OIDs stay distinct and the table holds them. -/
theorem extensionLoop_safe (hend : extensionsEnd ≤ raw.length) (hraw : raw.length < 2 ^ 63)
    (fuel idx : ℕ) (seen : List (ℕ × ℕ)) (fields : X509Fields) (hidx : idx ≤ extensionsEnd)
    (hfuel : extensionsEnd - idx < fuel) (hseen : ∀ p ∈ seen, p.1 + p.2 ≤ raw.length)
    (hlen : seen.length ≤ maxExtn) (hnodup : (seenOids raw seen).Nodup) :
    Safe (extensionLoop raw extensionsEnd fuel idx seen fields) fun p =>
      p.1 = extensionsEnd ∧ ∃ xs : List Extension,
        window raw idx extensionsEnd = encodeExtensions xs ∧
        p.2 = applyExtensions xs idx fields ∧ seen.length + xs.length ≤ maxExtn ∧
        (seenOids raw seen ++ xs.map Extension.oid).Nodup := by
  induction fuel generalizing idx seen fields with
  | zero => omega
  | succ fuel ih =>
    unfold extensionLoop
    refine Safe.ite (fun hlt => ?_) fun hge => ?_
    · refine Safe.ite (fun _ => safe_code _ _) fun hroom => ?_
      refine Safe.bind (parseExtnHeader_safe hend hraw) ?_
      rintro header ⟨oid, value, h⟩
      have hextn := h.consumes.le hidx
      have hnext := h.consumes.next_eq
      have hoidle := h.oidStart_le
      have hoidend := h.oidEnd_le
      have hoid := h.oid_window
      have hsize : header.oidStart + (header.oidEnd - header.oidStart) ≤ raw.length := by omega
      rw [usub_eq hoidle, ok_bind, checkDuplicate_eq hsize seen hseen, hoid]
      by_cases hmem : oid ∈ seenOids raw seen
      · rw [if_pos hmem]
        exact safe_code _ _
      rw [if_neg hmem, ok_bind, recordOid, if_pos (by omega), ok_bind]
      refine Safe.bind (dispatchExtn_safe hsize hoid h.value_eq (by omega) hraw) ?_
      rintro f ⟨x, hxoid, hxcrit, hxvalue, rfl⟩
      have hcontent : extensionContent oid header.critical value = x.content := by
        rw [← hxoid, ← hxcrit, ← hxvalue]
        rfl
      have hstart : header.valueStart = idx + x.valueOffset := by
        rw [h.valueStart_eq, hcontent, ← hxoid, ← hxcrit, ← hxvalue]
        rfl
      have hconsumes := h.consumes
      rw [hcontent] at hconsumes hnext
      have hpos := two_le_headerLength x.content
      rw [length_tlv] at hnext
      have hseen' := seenOids_record hoid seen
      refine (ih header.extnEnd _ _ hextn (by omega) (seen_record hsize hseen) ?_ ?_).mono ?_
      · rw [List.length_append, List.length_singleton]
        omega
      · rw [hseen', List.nodup_append]
        refine ⟨hnodup, List.nodup_singleton _, ?_⟩
        rintro a ha b hb rfl
        rw [List.mem_singleton] at hb
        exact hmem (hb ▸ ha)
      · rintro ⟨last, f⟩ ⟨hlast, xs, hw, hf, hcount, hdistinct⟩
        refine ⟨hlast, x :: xs, ?_, ?_, ?_, ?_⟩
        · rw [hconsumes.window_eq, hw]
          rfl
        · have hxend : header.extnEnd = idx + x.encode.length := by
            rw [Extension.encode, length_tlv]
            exact hnext
          rw [hf, applyExtensions, hstart, hxend]
        · rw [List.length_append, List.length_singleton] at hcount
          rw [List.length_cons]
          omega
        · rw [hseen', List.append_assoc] at hdistinct
          rw [List.map_cons, hxoid]
          exact hdistinct
    · rw [safe_ok]
      have hdone : idx = extensionsEnd := by omega
      refine ⟨hdone, [], window_eq_nil (by omega), rfl, by simpa using hlen, ?_⟩
      rw [List.map_nil, List.append_nil]
      exact hnodup

/-- The loop passes over encoded extensions with new, distinct OIDs. -/
theorem extensionLoop_eq (hend : extensionsEnd ≤ raw.length) (hraw : raw.length < 2 ^ 63)
    (xs : List Extension) (fuel idx : ℕ) (seen : List (ℕ × ℕ)) (fields : X509Fields)
    (hidx : idx ≤ extensionsEnd) (hfuel : extensionsEnd - idx < fuel)
    (hseen : ∀ p ∈ seen, p.1 + p.2 ≤ raw.length)
    (hlen : seen.length + xs.length ≤ maxExtn)
    (hnodup : (seenOids raw seen ++ xs.map Extension.oid).Nodup)
    (hw : window raw idx extensionsEnd = encodeExtensions xs) :
    extensionLoop raw extensionsEnd fuel idx seen fields =
      .ok (extensionsEnd, applyExtensions xs idx fields) := by
  induction xs generalizing fuel idx seen fields with
  | nil =>
    obtain ⟨fuel, rfl⟩ : ∃ k, fuel = k + 1 := ⟨fuel - 1, by omega⟩
    have hwlen := length_window idx hend
    rw [hw, encodeExtensions, List.flatMap_nil, List.length_nil] at hwlen
    unfold extensionLoop
    rw [if_neg (by omega), show idx = extensionsEnd by omega]
    rfl
  | cons x xs ih =>
    obtain ⟨fuel, rfl⟩ : ∃ k, fuel = k + 1 := ⟨fuel - 1, by omega⟩
    obtain ⟨header, hparse, hcritical, h, hrest⟩ := x.parseExtnHeader_eq hw hend hraw
    have hextn := h.consumes.le hidx
    have hnext := h.consumes.next_eq
    have hoidle := h.oidStart_le
    have hoidend := h.oidEnd_le
    have hstart := h.valueStart_eq
    have hoid := h.oid_window
    have hsize : header.oidStart + (header.oidEnd - header.oidStart) ≤ raw.length := by omega
    rw [hcritical] at hnext hstart
    have hpos := two_le_headerLength (extensionContent x.oid x.critical x.value)
    rw [length_tlv] at hnext
    have hmem : x.oid ∉ seenOids raw seen := by
      intro hmem
      exact (List.nodup_append.mp hnodup).2.2 x.oid hmem x.oid (by simp) rfl
    rw [List.length_cons] at hlen
    unfold extensionLoop
    rw [if_pos (by omega), if_neg (by omega), hparse, ok_bind, usub_eq hoidle, ok_bind,
      checkDuplicate_eq hsize seen hseen, hoid, if_neg hmem, ok_bind, recordOid,
      if_pos (by omega), ok_bind,
      x.dispatchExtn_eq hsize hoid hcritical h.value_eq (by omega) hraw, ok_bind,
      ih fuel header.extnEnd _ _ hextn (by omega) (seen_record hsize hseen) ?_ ?_ hrest]
    · have hxend : header.extnEnd = idx + x.encode.length := by
        rw [Extension.encode, length_tlv]
        exact hnext
      rw [applyExtensions, hxend, hstart]
      rfl
    · rw [List.length_append, List.length_singleton]
      omega
    · rw [seenOids_record hoid, List.append_assoc]
      exact hnodup

/-! ## extensions [3] -/

theorem parseExtensions_safe {tbsCertEnd : ℕ} {fields : X509Fields}
    (hend : tbsCertEnd ≤ raw.length) (hraw : raw.length < 2 ^ 63) :
    Safe (parseExtensions raw idx tbsCertEnd fields) fun p => ∃ o : Option ExtensionList,
      Consumes raw idx tbsCertEnd (encodeOptionalExtensions o) p.1 ∧
        p.2 = applyExtensions (extensionMembers o) (firstMember o idx)
          (assignDefaultExtensions fields) := by
  unfold parseExtensions
  refine Safe.bind (parseOptionalData_safe hend hraw) ?_
  rintro ⟨start, explicit3End⟩ ⟨o, ho⟩
  cases ho with
  | @present _ _ content rest ho =>
    have hidx := ho.idx_lt
    have hstart := ho.start_eq
    have hstartle := ho.start_le
    have hendle := ho.end_le
    dsimp only at hidx hstart hstartle hendle ⊢
    rw [if_pos (by simp only [idxNone]; omega)]
    refine Safe.bind (parseDataElement_safe (by omega) hraw) ?_
    rintro ⟨first, extensionsEnd⟩ ⟨members, rest', h⟩
    have hfirst := h.start_eq
    have hfirstle := h.start_le
    dsimp only at h hfirst hfirstle ⊢
    refine Safe.ite (fun _ => safe_code _ _) fun heq => ?_
    obtain rfl : extensionsEnd = explicit3End := not_not.mp heq
    have hnil := (h.rest_eq_nil_iff (by omega)).mpr rfl
    refine Safe.bind (extensionLoop_safe (by omega) hraw _ _ [] _ hfirstle (by omega)
      (by simp) (by simp) (by simp [seenOids])) ?_
    rintro ⟨last, f⟩ ⟨hlast, xs, hw, hf, hcount, hdistinct⟩
    dsimp only at hlast hf ⊢
    rw [assertThat_eq (by simpa using hlast), ok_bind, safe_ok]
    have hmembers : members = encodeExtensions xs := by rw [← h.content_eq, hw]
    have hcontent : content = tlv derSequence (encodeExtensions xs) := by
      rw [← ho.content_eq, h.window_eq, hnil, List.append_nil, hmembers]
    refine ⟨some ⟨xs, by simpa using hcount, by simpa [seenOids] using hdistinct⟩, ?_, ?_⟩
    · rw [hlast, encodeOptionalExtensions, ExtensionList.encode, ← hcontent]
      exact ho.consumes
    · dsimp only
      rw [hf, hfirst, hstart, hcontent, hmembers]
      rfl
  | absent _ => exact ⟨none, Consumes.refl raw _ tbsCertEnd, rfl⟩

theorem parseExtensions_eq {tbsCertEnd : ℕ} {fields : X509Fields} (o : Option ExtensionList)
    (hw : window raw idx tbsCertEnd = encodeOptionalExtensions o)
    (hend : tbsCertEnd ≤ raw.length) (hraw : raw.length < 2 ^ 63) :
    parseExtensions raw idx tbsCertEnd fields =
      .ok (idx + (encodeOptionalExtensions o).length,
        applyExtensions (extensionMembers o) (firstMember o idx)
          (assignDefaultExtensions fields)) := by
  unfold parseExtensions
  cases o with
  | none =>
    rw [parseOptionalData_absent (by rw [hw]; exact lacks_nil _) hend hraw, ok_bind]
    rfl
  | some l =>
    have ho := Reads.of_window_eq hw
    have hidx := ho.idx_lt
    have hendle := ho.end_le
    have h := Reads.of_window_eq ho.content_eq
    have hfirst := h.start_le
    have hdone := (h.rest_eq_nil_iff (by omega)).mp rfl
    have hcount : ([] : List (ℕ × ℕ)).length + l.extensions.length ≤ maxExtn := by
      simpa using l.length_le
    have hdistinct : (seenOids raw [] ++ l.extensions.map Extension.oid).Nodup := l.nodup
    rw [ho.parseOptionalData_eq hend hraw, ok_bind]
    dsimp only
    rw [if_pos (by simp only [idxNone]; omega), h.parseDataElement_eq (by omega) hraw, ok_bind]
    dsimp only
    rw [if_neg (not_not.mpr hdone),
      extensionLoop_eq (by omega) hraw l.extensions _ _ [] _ hfirst (by omega) (by simp)
        hcount hdistinct h.content_eq, ok_bind]
    dsimp only
    rw [assertThat_eq (by simp), ok_bind, hdone]
    simp only [encodeOptionalExtensions, ExtensionList.encode, length_tlv, Nat.add_assoc,
      firstMember, extensionMembers]

end Extensions

end X509Server
