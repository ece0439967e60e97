import X509Server.Analysis.ElementSpec
import X509Server.Interface.Grammar

/-!
# Parsers that consume a prefix

`Consumes raw idx parentEnd s next`: the cursor moves from `idx` to `next` over exactly the
octets `s`.  It composes (`Consumes.trans`), so the octets behind a sequence of parser
calls are the concatenation of what each call consumed.

Optional elements are resolved by rollback.  A call that finds no element leaves the
cursor, and a call on octets that `Lacks` the identifier finds none.
-/

set_option autoImplicit false

namespace X509Server

open Checked ByteWindow Der

/-- The cursor moves from `idx` to `next` over exactly `s`. -/
structure Consumes (raw : Bytes) (idx parentEnd : ℕ) (s : Bytes) (next : ℕ) : Prop where
  window_eq : window raw idx parentEnd = s ++ window raw next parentEnd
  next_eq : next = idx + s.length

section Consumes

variable {raw : Bytes} {idx parentEnd next last : ℕ} {s t : Bytes}

theorem Consumes.refl (raw : Bytes) (idx parentEnd : ℕ) :
    Consumes raw idx parentEnd [] idx :=
  ⟨rfl, rfl⟩

theorem Consumes.trans (h : Consumes raw idx parentEnd s next)
    (h' : Consumes raw next parentEnd t last) : Consumes raw idx parentEnd (s ++ t) last := by
  refine ⟨by rw [h.window_eq, h'.window_eq, List.append_assoc], ?_⟩
  have h1 := h.next_eq
  have h2 := h'.next_eq
  rw [List.length_append]
  omega

/-- A prefix of the window can be consumed. -/
theorem Consumes.of_window {r : Bytes} (h : window raw idx parentEnd = s ++ r) :
    Consumes raw idx parentEnd s (idx + s.length) :=
  ⟨by rw [(of_window_append h).2, h], rfl⟩

/-- Consuming stays inside the parent. -/
theorem Consumes.le (h : Consumes raw idx parentEnd s next) (hidx : idx ≤ parentEnd) :
    next ≤ parentEnd := by
  have hlen := congrArg List.length h.window_eq
  have hle := length_window_le raw idx parentEnd
  have hnext := h.next_eq
  rw [List.length_append] at hlen
  omega

/-- The octets between the two cursors. -/
theorem Consumes.window_self (h : Consumes raw idx parentEnd s next) :
    window raw idx next = s := by
  rw [h.next_eq]
  exact (of_window_append h.window_eq).1

/-- A cursor at the parent's end has consumed the whole window. -/
theorem Consumes.all (h : Consumes raw idx parentEnd s parentEnd) :
    window raw idx parentEnd = s :=
  h.window_self

theorem Reads.consumes {identifier : UInt8} {start contentEnd : ℕ} {content rest : Bytes}
    (h : Reads raw idx parentEnd identifier start contentEnd content rest) :
    Consumes raw idx parentEnd (tlv identifier content) contentEnd := by
  refine ⟨by rw [h.rest_eq, h.window_eq], ?_⟩
  rw [length_tlv, h.end_eq, h.start_eq, Nat.add_assoc]

end Consumes

/-! ## Octets without a certain element -/

/-- Nothing, or an element of another identifier. -/
def Lacks (identifier : UInt8) (s : Bytes) : Prop :=
  s = [] ∨ ∃ j c r, j ≠ identifier ∧ s = tlv j c ++ r

theorem lacks_nil (identifier : UInt8) : Lacks identifier [] :=
  Or.inl rfl

theorem lacks_tlv {identifier j : UInt8} (c r : Bytes) (h : j ≠ identifier) :
    Lacks identifier (tlv j c ++ r) :=
  Or.inr ⟨j, c, r, h, rfl⟩

/-- An optional element of another identifier does not hide anything. -/
theorem lacks_optionalElement {identifier j : UInt8} {o : Option Bytes} {r : Bytes}
    (h : j ≠ identifier) (hr : Lacks identifier r) :
    Lacks identifier (optionalElement j o ++ r) := by
  cases o with
  | none => exact hr
  | some c => exact lacks_tlv c r h

/-! ## Element parsers -/

section Parsers

variable {raw : Bytes} {idx parentEnd : ℕ}

/-- Accepted elements are complete, minimally encoded and of the expected identifier. -/
theorem parseDataElement_safe {identifier : UInt8} (hend : parentEnd ≤ raw.length)
    (hraw : raw.length < 2 ^ 63) :
    Safe (parseDataElement raw identifier idx parentEnd) fun p => ∃ content rest,
      Reads raw idx parentEnd identifier p.1 p.2 content rest := by
  unfold parseDataElement
  refine Safe.bind (parseAny_safe hend (by omega)) ?_
  rintro element ⟨content, rest, h⟩
  refine Safe.ite (fun _ => safe_code _ _) fun hid => ?_
  have hid' : element.identifier = identifier := not_not.mp hid
  exact ⟨content, rest, hid' ▸ h⟩

theorem Reads.parseDataElement_eq {identifier : UInt8} {start contentEnd : ℕ}
    {content rest : Bytes}
    (h : Reads raw idx parentEnd identifier start contentEnd content rest)
    (hend : parentEnd ≤ raw.length) (hraw : raw.length < 2 ^ 63) :
    parseDataElement raw identifier idx parentEnd = .ok (start, contentEnd) := by
  unfold parseDataElement
  rw [h.parseAny_eq (by omega), ok_bind]
  exact if_neg (fun hne => hne rfl)

/-- What an optional element with `IDX_NONE` as previous end yields: the element's range,
or the old cursor and `IDX_NONE` where no such element stands. -/
inductive ReadsOptional (raw : Bytes) (idx parentEnd : ℕ) (identifier : UInt8) :
    ℕ → ℕ → Option Bytes → Prop where
  | present {start contentEnd : ℕ} {content rest : Bytes}
      (h : Reads raw idx parentEnd identifier start contentEnd content rest) :
      ReadsOptional raw idx parentEnd identifier start contentEnd (some content)
  | absent (h : ∀ content rest, window raw idx parentEnd ≠ tlv identifier content ++ rest) :
      ReadsOptional raw idx parentEnd identifier idx idxNone none

theorem parseOptionalData_safe {identifier : UInt8} (hend : parentEnd ≤ raw.length)
    (hraw : raw.length < 2 ^ 63) :
    Safe (parseOptionalData raw identifier idx parentEnd idxNone) fun p => ∃ o,
      ReadsOptional raw idx parentEnd identifier p.1 p.2 o := by
  have hsafe : Safe (parseDataElement raw identifier idx parentEnd) _ :=
    parseDataElement_safe hend hraw
  have habsent : ∀ s, parseDataElement raw identifier idx parentEnd = .error s →
      ∀ content rest, window raw idx parentEnd ≠ tlv identifier content ++ rest := by
    intro s hs content rest hw
    rw [(Reads.of_window hw).parseDataElement_eq hend hraw] at hs
    cases hs
  unfold parseOptionalData
  split
  · exact ⟨none, .absent (habsent _ ‹_›)⟩
  · exact ⟨none, .absent (habsent _ ‹_›)⟩
  · refine hsafe.mono ?_
    rintro p ⟨content, rest, h⟩
    exact ⟨some content, .present h⟩

theorem Reads.parseOptionalData_eq {identifier : UInt8} {start contentEnd : ℕ}
    {content rest : Bytes}
    (h : Reads raw idx parentEnd identifier start contentEnd content rest)
    (hend : parentEnd ≤ raw.length) (hraw : raw.length < 2 ^ 63) (preEnd : ℕ) :
    parseOptionalData raw identifier idx parentEnd preEnd = .ok (start, contentEnd) := by
  simp only [parseOptionalData, h.parseDataElement_eq hend hraw]

/-- Rollback: in front of other octets the cursor and the end stay what they were. -/
theorem parseOptionalData_absent {identifier : UInt8}
    (h : Lacks identifier (window raw idx parentEnd)) (hend : parentEnd ≤ raw.length)
    (hraw : raw.length < 2 ^ 63) (preEnd : ℕ) :
    parseOptionalData raw identifier idx parentEnd preEnd = .ok (idx, preEnd) := by
  have hcode : parseDataElement raw identifier idx parentEnd =
        .error (.code .unexpectedEndOfData) ∨
      parseDataElement raw identifier idx parentEnd =
        .error (.code .unexpectedIdentifier) := by
    rcases h with h | ⟨j, c, r, hj, h⟩
    · left
      have hge : idx ≥ parentEnd := by
        have hlen := length_window idx hend
        rw [h, List.length_nil] at hlen
        omega
      simp only [parseDataElement, parseAny, if_pos hge, error_bind]
    · right
      unfold parseDataElement
      rw [(Reads.of_window h).parseAny_eq (by omega), ok_bind]
      exact if_pos hj
  rcases hcode with hcode | hcode <;> simp only [parseOptionalData, hcode]

/-- A skipped optional element is consumed, if it is there. -/
theorem skipOptionalData_safe {identifier : UInt8} (hend : parentEnd ≤ raw.length)
    (hraw : raw.length < 2 ^ 63) :
    Safe (skipOptionalData raw identifier idx parentEnd) fun next => ∃ o,
      Consumes raw idx parentEnd (optionalElement identifier o) next := by
  unfold skipOptionalData
  refine Safe.bind (parseOptionalData_safe hend hraw) ?_
  rintro ⟨start, contentEnd⟩ ⟨o, h⟩
  cases h with
  | present h =>
    have hstart := h.idx_lt
    have hle := h.start_le
    dsimp only at hstart hle ⊢
    rw [if_pos (by simp only [idxNone]; omega)]
    exact ⟨some _, h.consumes⟩
  | absent h => exact ⟨none, Consumes.refl raw _ parentEnd⟩

theorem skipOptionalData_eq {identifier : UInt8} {o : Option Bytes} {r : Bytes}
    (h : window raw idx parentEnd = optionalElement identifier o ++ r)
    (hr : Lacks identifier r) (hend : parentEnd ≤ raw.length) (hraw : raw.length < 2 ^ 63) :
    skipOptionalData raw identifier idx parentEnd =
      .ok (idx + (optionalElement identifier o).length) := by
  unfold skipOptionalData
  cases o with
  | none =>
    rw [parseOptionalData_absent (by rw [h]; exact hr) hend hraw, ok_bind]
    exact if_neg (by simp)
  | some c =>
    have hreads := Reads.of_window h
    have hstart := hreads.idx_lt
    rw [hreads.parseOptionalData_eq hend hraw, ok_bind, optionalElement, length_tlv]
    simp only
    rw [if_pos (by simp only [idxNone]; omega), Nat.add_assoc]

/-- A defaulted boolean consumes its encoding. -/
theorem parseDefaultBool_safe (hend : parentEnd ≤ raw.length) (hraw : raw.length < 2 ^ 63) :
    Safe (parseDefaultBool raw idx parentEnd) fun p =>
      Consumes raw idx parentEnd (defaultFalse p.2) p.1 := by
  unfold parseDefaultBool
  refine Safe.bind (parseOptionalData_safe hend hraw) ?_
  rintro ⟨start, contentEnd⟩ ⟨o, h⟩
  cases h with
  | @present _ _ content rest h =>
    have hstart := h.idx_lt
    have hle := h.start_le
    have hendle := h.end_le
    simp only
    rw [if_pos (by simp only [idxNone]; omega), uadd_eq (by omega), ok_bind]
    refine Safe.ite (fun _ => safe_code _ _) fun hone => ?_
    have hlen : content.length = 1 := by
      have := h.length_content
      omega
    obtain ⟨b, rfl⟩ := List.length_eq_one_iff.mp hlen
    rw [rawByte_of_window h.content_eq, ok_bind]
    refine Safe.ite (fun _ => safe_code _ _) fun hff => ?_
    have hb : b = 0xff := not_not.mp hff
    subst hb
    exact h.consumes
  | absent h => exact Consumes.refl raw _ parentEnd

theorem parseDefaultBool_eq {b : Bool} {r : Bytes}
    (h : window raw idx parentEnd = defaultFalse b ++ r) (hr : Lacks derBoolean r)
    (hend : parentEnd ≤ raw.length) (hraw : raw.length < 2 ^ 63) :
    parseDefaultBool raw idx parentEnd = .ok (idx + (defaultFalse b).length, b) := by
  unfold parseDefaultBool
  cases b with
  | false =>
    rw [parseOptionalData_absent (by rw [h]; exact hr) hend hraw, ok_bind]
    rfl
  | true =>
    have hreads : Reads raw idx parentEnd derBoolean _ _ [0xff] r := Reads.of_window h
    have hstart := hreads.idx_lt
    have hendle := hreads.end_le
    rw [hreads.parseOptionalData_eq hend hraw, ok_bind]
    simp only [List.length_singleton]
    rw [List.length_singleton] at hendle
    rw [if_pos (by simp only [idxNone]; omega), uadd_eq (by omega), ok_bind,
      if_neg (by simp), rawByte_of_window hreads.content_eq, ok_bind, if_neg (by simp)]
    simp only [defaultFalse, optionalElement, if_true, length_tlv, List.length_singleton]
    rw [Nat.add_assoc]

/-- A BIT STRING of whole octets is consumed, and its bits lie at its end. -/
theorem parseBitstringNoUnused_safe (hend : parentEnd ≤ raw.length)
    (hraw : raw.length < 2 ^ 63) :
    Safe (parseBitstringNoUnused raw idx parentEnd) fun p => ∃ bits,
      Consumes raw idx parentEnd (encodeBitstring bits) p.2 ∧ p.1 + bits.length = p.2 := by
  unfold parseBitstringNoUnused
  refine Safe.bind (parseDataElement_safe hend hraw) ?_
  rintro ⟨start, contentEnd⟩ ⟨content, rest, h⟩
  have hle := h.start_le
  have hendle := h.end_le
  have hlen := h.length_content
  simp only at hle hendle hlen ⊢
  refine Safe.ite (fun _ => safe_code _ _) fun hne => ?_
  cases content with
  | nil =>
    rw [List.length_nil] at hlen
    omega
  | cons unused bits =>
    rw [rawByte_of_window h.content_eq, ok_bind]
    refine Safe.ite (fun _ => safe_code _ _) fun hzero => ?_
    have hunused : unused = 0 := not_not.mp hzero
    subst hunused
    rw [uadd_eq (by omega), ok_bind, safe_ok]
    rw [List.length_cons] at hlen
    exact ⟨bits, h.consumes, by simp only; omega⟩

theorem parseBitstringNoUnused_eq {bits r : Bytes}
    (h : window raw idx parentEnd = encodeBitstring bits ++ r)
    (hend : parentEnd ≤ raw.length) (hraw : raw.length < 2 ^ 63) :
    parseBitstringNoUnused raw idx parentEnd =
      .ok (idx + headerLength (0 :: bits) + 1, idx + (encodeBitstring bits).length) := by
  have hreads : Reads raw idx parentEnd derBitstring _ _ (0 :: bits) r := Reads.of_window h
  have hstart := hreads.idx_lt
  have hendle := hreads.end_le
  unfold parseBitstringNoUnused
  rw [hreads.parseDataElement_eq hend hraw, ok_bind]
  simp only [List.length_cons] at hendle ⊢
  rw [if_neg (by omega), rawByte_of_window hreads.content_eq, ok_bind, if_neg (by simp),
    uadd_eq (by omega), ok_bind]
  simp only [encodeBitstring, length_tlv, List.length_cons, Nat.add_assoc]

end Parsers

end X509Server
