import X509Server.Analysis.ConsumeSpec

/-!
# Optional elements

`parse_optional_data` folds two codes of `parse_data_element` into success and rolls the
cursor and the end back.  Of the codes `parse_any` can return, what is left is
`INVALID_LENGTH_FORM`, and `parse_any` returns it exactly in front of octets that show
such a form (`InvalidLengthForm`).  So a call with `IDX_NONE` as previous end either reads
the element at the cursor, or finds none there and changes nothing.
-/

set_option autoImplicit false

namespace X509Server

open Checked ByteWindow Der

/-! ## Length forms that DER excludes -/

/-- A complete long form of `count` octets which is not the shortest form of its length. -/
def RedundantLength (count : ℕ) (w : Bytes) : Prop :=
  count ≤ w.length ∧ (w.head? = some 0 ∨ beNat (w.take count) < 128)

/-- Behind the identifier there stands a length that is indefinite, reserved or
redundant. -/
def InvalidLengthForm : Bytes → Prop
  | _ :: lengthByte :: w =>
    lengthByte = derLengthIndefinite ∨ lengthByte = derLengthReserved ∨
      128 < lengthByte.toNat ∧ RedundantLength (lengthByte.toNat - 128) w
  | _ => False

/-- The code for octets of which `invalid` tells whether their length form is. -/
def CodeFor (invalid : Prop) (c : ParseCode) : Prop :=
  c = .invalidLengthForm ∧ invalid ∨ c = .unexpectedEndOfData ∧ ¬ invalid

section Codes

variable {raw : Bytes} {idx parentEnd : ℕ}

/-- Octets without a leading zero stand for at least `256 ^ (count - 1)`. -/
theorem beNat_take_ge {b : UInt8} {w : Bytes} {count : ℕ} (hpos : 1 < count) (hb : b ≠ 0)
    (hcount : count ≤ (b :: w).length) : 128 ≤ beNat ((b :: w).take count) := by
  obtain ⟨n, rfl⟩ := Nat.exists_eq_add_of_le' (show 1 ≤ count by omega)
  rw [List.take_succ_cons]
  have hlen : (w.take n).length = n := by
    rw [List.length_take]
    rw [List.length_cons] at hcount
    omega
  have hge := mt (beNat_cons_lt_iff b (w.take n)).mp hb
  rw [hlen] at hge
  have hpow : 256 ^ 1 ≤ 256 ^ n := Nat.pow_le_pow_right (by norm_num) (by omega)
  omega

/-- The long form is refused as invalid exactly when it is redundant. -/
theorem parseLongLength_yields {count : ℕ} (hidx : idx ≤ parentEnd)
    (hend : parentEnd ≤ raw.length) (hsize : parentEnd < 2 ^ 63) (hpos : 0 < count)
    (hcount : count < 128) :
    Yields (parseLongLength raw idx parentEnd count)
      (fun _ => ¬ RedundantLength count (window raw idx parentEnd))
      (CodeFor (RedundantLength count (window raw idx parentEnd))) := by
  have hlen := length_window idx hend
  unfold parseLongLength
  rw [uadd_eq (by omega), ok_bind]
  apply Yields.ite
  · intro hlong
    rw [yields_code]
    refine Or.inr ⟨rfl, ?_⟩
    intro hred
    have := hred.1
    omega
  intro hfits
  obtain ⟨first, hfirst, hwin⟩ := window_eq_cons (b := raw) (i := idx) (e := parentEnd)
    (by omega) hend
  rw [rawByte_eq hfirst, ok_bind]
  apply Yields.ite
  · intro hzero
    rw [yields_code]
    refine Or.inl ⟨rfl, by omega, Or.inl ?_⟩
    rw [hwin, hzero]
    rfl
  intro hnonzero
  have hhead : (window raw idx parentEnd).head? ≠ some 0 := by
    rw [hwin]
    simpa using hnonzero
  apply Yields.ite
  · intro hmany
    rw [yields_code]
    refine Or.inr ⟨rfl, ?_⟩
    rintro ⟨hle, hzero | hsmall⟩
    · exact hhead hzero
    · rw [hwin] at hle hsmall
      have := beNat_take_ge (by omega) hnonzero hle
      omega
  intro height
  have hsplit := (List.take_append_drop count (window raw idx parentEnd)).symm
  have htake : ((window raw idx parentEnd).take count).length = count := by
    rw [List.length_take]
    omega
  have hloop : lengthLoop raw count idx 0 =
      .ok (idx + count, beNat ((window raw idx parentEnd).take count)) := by
    have h := lengthLoop_eq _ idx 0 _ hsplit hsize (pow_octets_le (by omega))
    rwa [htake] at h
  rw [hloop, ok_bind]
  dsimp only
  apply Yields.ite
  · intro hshort
    rw [yields_code]
    exact Or.inl ⟨rfl, by omega, Or.inr (Nat.lt_succ_of_le hshort)⟩
  · intro hlong
    rw [yields_ok]
    rintro ⟨-, hzero | hsmall⟩
    · exact hhead hzero
    · exact hlong (Nat.le_of_lt_succ hsmall)

/-- Both length forms together. -/
theorem parseLength_yields {lengthByte : UInt8} (hidx : idx ≤ parentEnd)
    (hend : parentEnd ≤ raw.length) (hsize : parentEnd < 2 ^ 63)
    (hform : lengthByte ≠ derLengthIndefinite) :
    Yields (parseLength raw idx parentEnd lengthByte)
      (fun _ => ¬ (128 < lengthByte.toNat ∧
        RedundantLength (lengthByte.toNat - 128) (window raw idx parentEnd)))
      (CodeFor (128 < lengthByte.toNat ∧
        RedundantLength (lengthByte.toNat - 128) (window raw idx parentEnd))) := by
  have hb := lengthByte.toNat_lt
  unfold parseLength
  apply Yields.ite
  · intro hlong
    rw [longForm_iff] at hlong
    have hne : lengthByte.toNat ≠ 128 := by
      intro heq
      exact hform (UInt8.toNat_inj.mp heq)
    have hgt : 128 < lengthByte.toNat := by omega
    simp only [hgt, true_and]
    rw [toNat_lengthOctets hlong]
    -- as a variable, since the number of octets is not to be evaluated
    generalize hcount : lengthByte.toNat - 128 = count
    exact parseLongLength_yields hidx hend hsize (by omega) (by omega)
  · intro hshort
    rw [longForm_iff] at hshort
    rw [yields_ok]
    rintro ⟨hgt, -⟩
    omega

/-- `parse_any` refuses a length form exactly where one stands that DER excludes, and
everything else it refuses is cut off. -/
theorem parseAny_yields (hend : parentEnd ≤ raw.length) (hsize : parentEnd < 2 ^ 63) :
    Yields (parseAny raw idx parentEnd)
      (fun _ => ¬ InvalidLengthForm (window raw idx parentEnd))
      (CodeFor (InvalidLengthForm (window raw idx parentEnd))) := by
  unfold parseAny
  apply Yields.ite
  · intro h0
    rw [window_eq_nil h0, yields_code]
    exact Or.inr ⟨rfl, id⟩
  intro h0
  obtain ⟨identifier, hid, hwin0⟩ := window_eq_cons (b := raw) (i := idx) (e := parentEnd)
    (by omega) hend
  rw [rawByte_eq hid, ok_bind, uadd_eq (by omega), ok_bind, hwin0]
  apply Yields.ite
  · intro h1
    rw [window_eq_nil h1, yields_code]
    exact Or.inr ⟨rfl, id⟩
  intro h1
  obtain ⟨lengthByte, hlb, hwin1⟩ := window_eq_cons (b := raw) (i := idx + 1)
    (e := parentEnd) (by omega) hend
  rw [rawByte_eq hlb, ok_bind, hwin1]
  apply Yields.ite
  · intro hform
    rw [yields_code]
    refine Or.inl ⟨rfl, ?_⟩
    rcases hform with h | h
    · exact Or.inl h
    · exact Or.inr (Or.inl h)
  intro hform
  have hother : InvalidLengthForm
      (identifier :: lengthByte :: window raw (idx + 1 + 1) parentEnd) ↔
        128 < lengthByte.toNat ∧ RedundantLength (lengthByte.toNat - 128)
          (window raw (idx + 1 + 1) parentEnd) := by
    rw [not_or] at hform
    simp only [InvalidLengthForm, hform.1, hform.2, false_or]
  rw [uadd_eq (by omega), ok_bind]
  simp only [hother]
  apply Yields.bind (parseLength_yields (by omega) hend hsize fun h => hform (Or.inl h))
  rintro ⟨start, length⟩ hvalid
  -- a subtraction or an addition that wraps ends in a fault, which is neither result
  unfold usub
  dsimp only
  split
  · rw [ok_bind]
    apply Yields.ite
    · intro _
      rw [yields_code]
      exact Or.inr ⟨rfl, hvalid⟩
    · intro _
      unfold uadd
      split
      · exact hvalid
      · trivial
  · trivial

/-- Octets that start with an element are in no invalid length form: the two answers of
`parse_any` exclude each other. -/
theorem not_invalidLengthForm {identifier : UInt8} {content rest : Bytes}
    (h : window raw idx parentEnd = tlv identifier content ++ rest)
    (hend : parentEnd ≤ raw.length) (hsize : parentEnd < 2 ^ 63) :
    ¬ InvalidLengthForm (window raw idx parentEnd) :=
  (parseAny_yields hend hsize).of_ok ((Reads.of_window h).parseAny_eq hsize)

end Codes

/-! ## All or nothing -/

section Optional

variable {raw : Bytes} {idx parentEnd : ℕ} {identifier : UInt8}

/-- Reading one element of the identifier fails in three ways. -/
theorem parseDataElement_yields (hend : parentEnd ≤ raw.length) (hsize : parentEnd < 2 ^ 63) :
    Yields (parseDataElement raw identifier idx parentEnd)
      (fun _ => ¬ InvalidLengthForm (window raw idx parentEnd))
      (fun c => c = .unexpectedIdentifier ∧ ¬ InvalidLengthForm (window raw idx parentEnd) ∨
        CodeFor (InvalidLengthForm (window raw idx parentEnd)) c) := by
  unfold parseDataElement
  apply Yields.bind ((parseAny_yields hend hsize).mono (fun _ h => h) fun _ h => Or.inr h)
  intro element hvalid
  apply Yields.ite
  · intro _
    exact Or.inl ⟨rfl, hvalid⟩
  · intro _
    exact hvalid

/-- What an optional element ends with, when it ends with a code. -/
theorem parseOptionalData_yields (hend : parentEnd ≤ raw.length) (hsize : parentEnd < 2 ^ 63)
    (preEnd : ℕ) :
    Yields (parseOptionalData raw identifier idx parentEnd preEnd)
      (fun _ => ¬ InvalidLengthForm (window raw idx parentEnd))
      (fun c => c = .invalidLengthForm ∧ InvalidLengthForm (window raw idx parentEnd)) := by
  have h := @parseDataElement_yields raw idx parentEnd identifier hend hsize
  unfold parseOptionalData
  generalize parseDataElement raw identifier idx parentEnd = result at h
  split
  · rcases h with ⟨hcode, -⟩ | ⟨hcode, -⟩ | ⟨-, hvalid⟩
    · cases hcode
    · cases hcode
    · exact hvalid
  · rcases h with ⟨-, hvalid⟩ | ⟨hcode, -⟩ | ⟨hcode, -⟩
    · exact hvalid
    · cases hcode
    · cases hcode
  · rename_i hnotEnd hnotIdentifier
    apply h.remember.mono (fun _ hvalid => hvalid.2)
    rintro c ⟨hcode, ⟨rfl, -⟩ | ⟨rfl, hinvalid⟩ | ⟨rfl, -⟩⟩
    · exact (hnotIdentifier hcode).elim
    · exact ⟨rfl, hinvalid⟩
    · exact (hnotEnd hcode).elim

/-- An optional element fails exactly on an invalid length form. -/
theorem parseOptionalData_error_iff (hend : parentEnd ≤ raw.length)
    (hraw : raw.length < 2 ^ 63) (stop : Stop ParseCode Fault) :
    parseOptionalData raw identifier idx parentEnd idxNone = .error stop ↔
      stop = .code .invalidLengthForm ∧ InvalidLengthForm (window raw idx parentEnd) := by
  have hyields := @parseOptionalData_yields raw idx parentEnd identifier hend (by omega) idxNone
  constructor
  · intro herror
    cases stop with
    | code c =>
      obtain ⟨rfl, hinvalid⟩ := hyields.of_code herror
      exact ⟨rfl, hinvalid⟩
    | fault f => exact ((parseOptionalData_safe hend hraw).ne_fault f herror).elim
  · rintro ⟨rfl, hinvalid⟩
    cases hresult : parseOptionalData raw identifier idx parentEnd idxNone with
    | ok p => exact (hyields.of_ok hresult hinvalid).elim
    | error stop =>
      cases stop with
      | code c =>
        obtain ⟨rfl, -⟩ := hyields.of_code hresult
        rfl
      | fault f => exact ((parseOptionalData_safe hend hraw).ne_fault f hresult).elim

/-- Optional elements are all or nothing.  With `IDX_NONE` as previous end the cursor and
the end become the content range of the element that stands at the cursor, or none stands
there and both are as before; the only error is an invalid length form; and a caller that
resumes at the end, if it is not `IDX_NONE`, and at the cursor otherwise, has consumed the
element and nothing else. -/
theorem parseOptionalData_allOrNothing (raw : Bytes) (identifier : UInt8) (idx parentEnd : ℕ)
    (hend : parentEnd ≤ raw.length) (hraw : raw.length < 2 ^ 63) :
    (∀ next contentEnd,
      parseOptionalData raw identifier idx parentEnd idxNone = .ok (next, contentEnd) →
        (∃ content rest, Reads raw idx parentEnd identifier next contentEnd content rest ∧
          idxNone < contentEnd) ∨
        (∀ content rest, window raw idx parentEnd ≠ tlv identifier content ++ rest) ∧
          next = idx ∧ contentEnd = idxNone) ∧
    (∀ stop, parseOptionalData raw identifier idx parentEnd idxNone = .error stop ↔
      stop = .code .invalidLengthForm ∧ InvalidLengthForm (window raw idx parentEnd)) ∧
    (∀ next contentEnd,
      parseOptionalData raw identifier idx parentEnd idxNone = .ok (next, contentEnd) →
        (contentEnd ≠ idxNone ↔
          ∃ content rest, window raw idx parentEnd = tlv identifier content ++ rest) ∧
        ∃ o, (contentEnd ≠ idxNone ↔ o.isSome) ∧
          Consumes raw idx parentEnd (optionalElement identifier o)
            (if contentEnd ≠ idxNone then contentEnd else next)) := by
  refine ⟨?_, parseOptionalData_error_iff hend hraw, ?_⟩
  · intro next contentEnd hok
    obtain ⟨o, h⟩ := (parseOptionalData_safe hend hraw).of_ok hok
    cases h with
    | @present _ _ content rest h =>
      have hidx := h.idx_lt
      have hle := h.start_le
      exact Or.inl ⟨content, rest, h, by simp only [idxNone]; omega⟩
    | absent h => exact Or.inr ⟨h, rfl, rfl⟩
  · intro next contentEnd hok
    obtain ⟨o, h⟩ := (parseOptionalData_safe hend hraw).of_ok hok
    cases h with
    | @present _ _ content rest h =>
      have hidx := h.idx_lt
      have hle := h.start_le
      have hne : contentEnd ≠ idxNone := by
        simp only [idxNone]
        omega
      refine ⟨⟨fun _ => ⟨content, rest, h.window_eq⟩, fun _ => hne⟩, some content, ?_, ?_⟩
      · simp [hne]
      · rw [if_pos hne]
        exact h.consumes
    | absent h =>
      refine ⟨⟨fun hne => (hne rfl).elim, ?_⟩, none, ?_, ?_⟩
      · rintro ⟨content, rest, hw⟩
        exact (h content rest hw).elim
      · simp [idxNone]
      · rw [if_neg (by simp [idxNone])]
        exact Consumes.refl raw _ parentEnd

end Optional

/-- An INTEGER is looked for where an OCTET STRING stands. -/
theorem parseOptionalData_allOrNothing_octetString :
    (∀ content rest, window [4, 1, 7] 0 3 ≠ tlv derInteger content ++ rest) ∧
      parseOptionalData [4, 1, 7] derInteger 0 3 idxNone = .ok (0, idxNone) := by
  have hok : parseOptionalData [4, 1, 7] derInteger 0 3 idxNone = .ok (0, idxNone) := by
    decide
  have h := parseOptionalData_allOrNothing [4, 1, 7] derInteger 0 3 (by decide) (by norm_num)
  rcases h.1 0 idxNone hok with ⟨-, -, -, hlt⟩ | ⟨hnone, -, -⟩
  · exact (Nat.lt_irrefl _ hlt).elim
  · exact ⟨hnone, hok⟩

end X509Server
