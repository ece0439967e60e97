import X509Server.Analysis.ConsumeSpec
import X509Server.Interface.Dates

/-!
# What `parse_time` accepts

`timeValue` is `parse_time` on the contents alone: the digits, the `struct tm` they make
and the comparison around `timegm`.  Wherever a Time stands, `parseTime` is `timeValue` of
its contents (`parseTime_window`), so acceptance does not depend on the surrounding
octets.

For UTCTime the accepted value is the second of the date the contents denote.  For
GeneralizedTime it never is: `tm_year` receives the year itself where years from 1900 are
due (`timeValue_generalizedTime_ne`).
-/

set_option autoImplicit false

namespace X509Server

open Checked ByteWindow Der Calendar

/-! ## Contents -/

def isDigit (b : UInt8) : Prop := 48 ≤ b ∧ b ≤ 57

instance (b : UInt8) : Decidable (isDigit b) := inferInstanceAs (Decidable (_ ∧ _))

theorem not_isDigit_iff (b : UInt8) : ¬ isDigit b ↔ b < 48 ∨ b > 57 := by
  rw [isDigit, not_and_or, UInt8.not_le, UInt8.not_le]

def digitValue (b : UInt8) : ℤ := (b.toNat : ℤ) - 48

def twoDigits (a b : UInt8) : ℤ := digitValue a * 10 + digitValue b

/-- The `struct tm` behind a `tm_year`. -/
def tmOfClock (year : ℤ) : Bytes → Option Tm
  | [m1, m2, d1, d2, h1, h2, i1, i2, s1, s2, zone] =>
    if (isDigit m1 ∧ isDigit m2) ∧ (isDigit d1 ∧ isDigit d2) ∧ (isDigit h1 ∧ isDigit h2) ∧
        (isDigit i1 ∧ isDigit i2) ∧ (isDigit s1 ∧ isDigit s2) ∧ zone = 90 then
      some { year, mon := twoDigits m1 m2 - 1, mday := twoDigits d1 d2
             hour := twoDigits h1 h2, min := twoDigits i1 i2, sec := twoDigits s1 s2 }
    else none
  | _ => none

/-- The `struct tm` of the contents, with the year as the code computes it. -/
def tmOfContents : TimeForm → Bytes → Option Tm
  | .utcTime, y1 :: y2 :: clock =>
    if isDigit y1 ∧ isDigit y2 then
      tmOfClock (twoDigits y1 y2 + (if twoDigits y1 y2 < 50 then 1 else 0) * 100) clock
    else none
  | .generalizedTime, y1 :: y2 :: y3 :: y4 :: clock =>
    if (isDigit y1 ∧ isDigit y2) ∧ (isDigit y3 ∧ isDigit y4) then
      tmOfClock (twoDigits y1 y2 * 100 + twoDigits y3 y4) clock
    else none
  | _, _ => none

/-- The result of `timegm`, where it is not negative and left the fields alone. -/
def checkedSeconds (tm : Tm) : Option ℤ :=
  if 0 ≤ (timegm tm).1 ∧ (timegm tm).2 = tm then some (timegm tm).1 else none

/-- `parse_time` on the contents of a Time. -/
def timeValue (form : TimeForm) (contents : Bytes) : Option ℤ :=
  (tmOfContents form contents).bind checkedSeconds

/-! ## Reading digits -/

section Parsers

variable {raw : Bytes} {idx parentEnd : ℕ}

theorem convertNum_eq {b : UInt8} {w : Bytes} (hw : window raw idx parentEnd = b :: w)
    (hend : parentEnd < 2 ^ 63) (n m : ℤ) :
    convertNum raw idx n m =
      if isDigit b then .ok (idx + 1, n + digitValue b * m)
      else reject .invalidValidityTime := by
  obtain ⟨hlt, -, -⟩ := of_window_cons hw
  unfold convertNum
  rw [rawByte_of_window hw, ok_bind, uadd_eq (by omega), ok_bind]
  by_cases hb : isDigit b
  · rw [if_neg (by rw [← not_isDigit_iff]; exact not_not.mpr hb), if_pos hb]
    rfl
  · rw [if_pos ((not_isDigit_iff b).mp hb), if_neg hb]

theorem convert2Digit_eq {a b : UInt8} {w : Bytes}
    (hw : window raw idx parentEnd = a :: b :: w) (hend : parentEnd < 2 ^ 63) (n : ℤ) :
    convert2Digit raw idx n =
      if isDigit a ∧ isDigit b then .ok (idx + 2, n * 1 + twoDigits a b)
      else reject .invalidValidityTime := by
  obtain ⟨-, -, hw1⟩ := of_window_cons hw
  unfold convert2Digit
  rw [convertNum_eq hw hend]
  by_cases ha : isDigit a
  · rw [if_pos ha, ok_bind]
    dsimp only
    rw [convertNum_eq hw1 hend]
    by_cases hb : isDigit b
    · rw [if_pos hb, if_pos ⟨ha, hb⟩]
      simp only [twoDigits, mul_one, add_assoc]
    · rw [if_neg hb, if_neg (fun h => hb h.2)]
  · rw [if_neg ha, if_neg (fun h => ha h.1)]
    rfl

/-- A group of two digits in front of what `f` reads. -/
theorem convert2Digit_bind {a b : UInt8} {w : Bytes} {α : Type}
    (hw : window raw idx parentEnd = a :: b :: w) (hend : parentEnd < 2 ^ 63)
    (f : ℕ × ℤ → Parse α) :
    (convert2Digit raw idx 0 >>= f) =
      if isDigit a ∧ isDigit b then f (idx + 2, twoDigits a b)
      else reject .invalidValidityTime := by
  rw [convert2Digit_eq hw hend]
  split
  · rw [ok_bind]
    simp
  · rfl

theorem checkTime_eq (tsEnd : ℕ) (tm : Tm) :
    checkTime tsEnd tm =
      match checkedSeconds tm with
      | some t => .ok (tsEnd, t)
      | none => reject .invalidValidityTime := by
  unfold checkTime checkedSeconds
  have hsame : (timegm tm).2 = tm ↔ tm.year = (timegm tm).2.year ∧ tm.mon = (timegm tm).2.mon ∧
      tm.mday = (timegm tm).2.mday ∧ tm.hour = (timegm tm).2.hour ∧
      tm.min = (timegm tm).2.min ∧ tm.sec = (timegm tm).2.sec := by
    rw [eq_comm, Tm.ext_iff]
  by_cases h0 : 0 ≤ (timegm tm).1
  · by_cases hf : (timegm tm).2 = tm
    · rw [if_neg, if_pos ⟨h0, hf⟩]
      rw [hf]
      simp only [ne_eq, not_true_eq_false, or_false, not_lt]
      exact h0
    · rw [if_pos, if_neg (fun h => hf h.2)]
      rw [hsame] at hf
      tauto
  · rw [if_pos (Or.inl (by omega)), if_neg (fun h => h0 h.1)]

/-- Eleven octets behind the year are read as `tmOfClock` says. -/
theorem parseMonthToSecond_eq {clock r : Bytes} (hlen : clock.length = 11)
    (hw : window raw idx parentEnd = clock ++ r) (hend : parentEnd < 2 ^ 63) (tsEnd : ℕ)
    (year : ℤ) :
    parseMonthToSecond raw idx tsEnd year =
      match (tmOfClock year clock).bind checkedSeconds with
      | some t => .ok (tsEnd, t)
      | none => reject .invalidValidityTime := by
  match clock, hlen with
  | [m1, m2, d1, d2, h1, h2, i1, i2, s1, s2, zone], _ =>
    simp only [List.cons_append, List.nil_append] at hw
    have tail : ∀ {i a b w}, window raw i parentEnd = a :: b :: w →
        window raw (i + 2) parentEnd = w := fun h =>
      (of_window_cons (of_window_cons h).2.2).2.2
    have hw1 := tail hw
    have hw2 := tail hw1
    have hw3 := tail hw2
    have hw4 := tail hw3
    have hw5 := tail hw4
    unfold parseMonthToSecond tmOfClock
    dsimp only
    -- each group of digits passes or ends both sides
    rw [convert2Digit_bind hw hend]
    by_cases g1 : isDigit m1 ∧ isDigit m2
    · rw [if_pos g1]
      dsimp only
      rw [convert2Digit_bind hw1 hend]
      by_cases g2 : isDigit d1 ∧ isDigit d2
      · rw [if_pos g2]
        dsimp only
        rw [convert2Digit_bind hw2 hend]
        by_cases g3 : isDigit h1 ∧ isDigit h2
        · rw [if_pos g3]
          dsimp only
          rw [convert2Digit_bind hw3 hend]
          by_cases g4 : isDigit i1 ∧ isDigit i2
          · rw [if_pos g4]
            dsimp only
            rw [convert2Digit_bind hw4 hend]
            by_cases g5 : isDigit s1 ∧ isDigit s2
            · rw [if_pos g5]
              dsimp only
              rw [rawByte_of_window hw5, ok_bind]
              by_cases hz : zone = 90
              · rw [if_neg (not_not.mpr hz), if_pos ⟨g1, g2, g3, g4, g5, hz⟩, checkTime_eq]
                rfl
              · rw [if_pos hz, if_neg (by tauto)]
                rfl
            · rw [if_neg g5, if_neg (by tauto)]
              rfl
          · rw [if_neg g4, if_neg (by tauto)]
            rfl
        · rw [if_neg g3, if_neg (by tauto)]
          rfl
      · rw [if_neg g2, if_neg (by tauto)]
        rfl
    · rw [if_neg g1, if_neg (by tauto)]
      rfl

/-! ## The two forms -/

/-- The number of content octets of a form. -/
def TimeForm.size : TimeForm → ℕ
  | .utcTime => utctimeSize
  | .generalizedTime => generalizedtimeSize

theorem length_of_tmOfClock {year : ℤ} {clock : Bytes} {tm : Tm}
    (h : tmOfClock year clock = some tm) : clock.length = 11 := by
  unfold tmOfClock at h
  split at h
  · rfl
  · cases h

theorem length_of_tmOfContents {form : TimeForm} {contents : Bytes} {tm : Tm}
    (h : tmOfContents form contents = some tm) : contents.length = form.size := by
  unfold tmOfContents at h
  split at h
  · split at h
    · rw [List.length_cons, List.length_cons, length_of_tmOfClock h]
      rfl
    · cases h
  · split at h
    · simp only [List.length_cons]
      rw [length_of_tmOfClock h]
      rfl
    · cases h
  · cases h

/-- Contents of another size have no value. -/
theorem timeValue_eq_none {form : TimeForm} {contents : Bytes}
    (h : contents.length ≠ form.size) : timeValue form contents = none := by
  unfold timeValue
  cases htm : tmOfContents form contents with
  | none => rfl
  | some tm => exact absurd (length_of_tmOfContents htm) h

theorem parseUtcYear_eq {tsEnd : ℕ} {y1 y2 : UInt8} {clock : Bytes}
    (hw : window raw idx tsEnd = y1 :: y2 :: clock) (hts : tsEnd = idx + utctimeSize)
    (hend : tsEnd < 2 ^ 63) :
    parseUtcYear raw idx tsEnd =
      if isDigit y1 ∧ isDigit y2 then
        .ok (idx + 2, tsEnd, twoDigits y1 y2 + (if twoDigits y1 y2 < 50 then 1 else 0) * 100)
      else reject .invalidValidityTime := by
  unfold parseUtcYear
  rw [uadd_eq (by omega), ok_bind, if_neg (by omega), convert2Digit_bind hw hend]

theorem parseGeneralizedYear_eq {tsEnd start : ℕ} {y1 y2 y3 y4 : UInt8} {clock : Bytes}
    (helem : parseDataElement raw derGeneralizedtime idx parentEnd = .ok (start, tsEnd))
    (hw : window raw start tsEnd = y1 :: y2 :: y3 :: y4 :: clock)
    (hts : tsEnd = start + generalizedtimeSize) (hend : tsEnd < 2 ^ 63) :
    parseGeneralizedYear raw idx parentEnd =
      if (isDigit y1 ∧ isDigit y2) ∧ (isDigit y3 ∧ isDigit y4) then
        .ok (start + 4, tsEnd, twoDigits y1 y2 * 100 + twoDigits y3 y4)
      else reject .invalidValidityTime := by
  obtain ⟨-, -, hw1⟩ := of_window_cons hw
  obtain ⟨-, -, hw2⟩ := of_window_cons hw1
  obtain ⟨-, -, hw3⟩ := of_window_cons hw2
  unfold parseGeneralizedYear
  rw [helem, ok_bind]
  dsimp only
  rw [uadd_eq (by omega), ok_bind, if_neg (by omega), convertNum_eq hw hend]
  by_cases h1 : isDigit y1
  · rw [if_pos h1, ok_bind]
    dsimp only
    rw [convertNum_eq hw1 hend]
    by_cases h2 : isDigit y2
    · rw [if_pos h2, ok_bind]
      dsimp only
      rw [convertNum_eq hw2 hend]
      by_cases h3 : isDigit y3
      · rw [if_pos h3, ok_bind]
        dsimp only
        rw [convertNum_eq hw3 hend]
        by_cases h4 : isDigit y4
        · rw [if_pos h4, if_pos ⟨⟨h1, h2⟩, h3, h4⟩, ok_bind]
          simp only [twoDigits, Except.ok.injEq, Prod.mk.injEq, true_and]
          ring
        · rw [if_neg h4, if_neg (by tauto)]
          rfl
      · rw [if_neg h3, if_neg (by tauto)]
        rfl
    · rw [if_neg h2, if_neg (by tauto)]
      rfl
  · rw [if_neg h1, if_neg (by tauto)]
    rfl

/-- The contents of a UTCTime are read as `timeValue` says. -/
theorem parseUtcTime_eq {start : ℕ} {contents : Bytes}
    (hcontent : window raw start (start + contents.length) = contents)
    (hend : start + contents.length < 2 ^ 63) :
    (do
      let (idx, tsEnd, year) ← parseUtcYear raw start (start + contents.length)
      parseMonthToSecond raw idx tsEnd year) =
      match timeValue .utcTime contents with
      | some t => .ok (start + contents.length, t)
      | none => reject .invalidValidityTime := by
  have hutc : utctimeSize = 13 := rfl
  by_cases hsize : contents.length = utctimeSize
  · obtain ⟨y1, y2, clock, rfl⟩ : ∃ y1 y2 clock, contents = y1 :: y2 :: clock := by
      match contents, hsize with
      | y1 :: y2 :: clock, _ => exact ⟨y1, y2, clock, rfl⟩
    have hclock : clock.length = 11 := by
      simp only [List.length_cons, utctimeSize] at hsize
      omega
    have htail := (of_window_append (s := [y1, y2]) hcontent).2
    rw [parseUtcYear_eq hcontent (by omega) (by omega), timeValue, tmOfContents]
    by_cases hy : isDigit y1 ∧ isDigit y2
    · rw [if_pos hy, if_pos hy, ok_bind]
      dsimp only
      rw [parseMonthToSecond_eq hclock (r := []) (by simpa using htail) (by omega)]
    · rw [if_neg hy, if_neg hy]
      rfl
  · have hnone : timeValue .utcTime contents = none := timeValue_eq_none hsize
    rw [parseUtcYear, uadd_eq (by omega), ok_bind, if_pos (by omega), hnone]
    rfl

/-- The same for a GeneralizedTime and the element it is the contents of. -/
theorem parseGeneralizedTime_eq {start : ℕ} {contents : Bytes}
    (helem : parseDataElement raw derGeneralizedtime idx parentEnd =
      .ok (start, start + contents.length))
    (hcontent : window raw start (start + contents.length) = contents)
    (hend : start + contents.length < 2 ^ 63) :
    (do
      let (idx, tsEnd, year) ← parseGeneralizedYear raw idx parentEnd
      parseMonthToSecond raw idx tsEnd year) =
      match timeValue .generalizedTime contents with
      | some t => .ok (start + contents.length, t)
      | none => reject .invalidValidityTime := by
  have hgen : generalizedtimeSize = 15 := rfl
  by_cases hsize : contents.length = generalizedtimeSize
  · obtain ⟨y1, y2, y3, y4, clock, rfl⟩ :
        ∃ y1 y2 y3 y4 clock, contents = y1 :: y2 :: y3 :: y4 :: clock := by
      match contents, hsize with
      | y1 :: y2 :: y3 :: y4 :: clock, _ => exact ⟨y1, y2, y3, y4, clock, rfl⟩
    have hclock : clock.length = 11 := by
      simp only [List.length_cons, generalizedtimeSize] at hsize
      omega
    have htail := (of_window_append (s := [y1, y2, y3, y4]) hcontent).2
    rw [parseGeneralizedYear_eq helem hcontent (by omega) (by omega), timeValue, tmOfContents]
    by_cases hy : (isDigit y1 ∧ isDigit y2) ∧ (isDigit y3 ∧ isDigit y4)
    · rw [if_pos hy, if_pos hy, ok_bind]
      dsimp only
      rw [parseMonthToSecond_eq hclock (r := []) (by simpa using htail) (by omega)]
    · rw [if_neg hy, if_neg hy]
      rfl
  · have hnone : timeValue .generalizedTime contents = none := timeValue_eq_none hsize
    rw [parseGeneralizedYear, helem, ok_bind]
    dsimp only
    rw [uadd_eq (by omega), ok_bind, if_pos (by omega), hnone]
    rfl

/-- Where a Time stands, `parse_time` computes the value of its contents. -/
theorem parseTime_window {form : TimeForm} {contents r : Bytes}
    (hw : window raw idx parentEnd = tlv form.identifier contents ++ r)
    (hend : parentEnd ≤ raw.length) (hraw : raw.length < 2 ^ 63) :
    parseTime raw idx parentEnd =
      match timeValue form contents with
      | some t => .ok (idx + (tlv form.identifier contents).length, t)
      | none => reject .invalidValidityTime := by
  have hreads := Reads.of_window hw
  have hstart := hreads.idx_lt
  have hendle := hreads.end_le
  have hcontent := hreads.content_eq
  have hlen : idx + (tlv form.identifier contents).length =
      idx + headerLength contents + contents.length := by
    rw [length_tlv, Nat.add_assoc]
  rw [hlen]
  unfold parseTime
  rw [assertThat_eq (by decide), ok_bind]
  generalize idx + headerLength contents = start at *
  cases form with
  | utcTime =>
    have hopt : parseOptionalData raw derUtctime idx parentEnd idxNone =
      .ok (start, start + contents.length) := hreads.parseOptionalData_eq hend hraw _
    rw [hopt, ok_bind]
    dsimp only
    rw [parseYear, if_pos (by simp only [idxNone]; omega)]
    exact parseUtcTime_eq hcontent (by omega)
  | generalizedTime =>
    have habsent : Lacks derUtctime (window raw idx parentEnd) := by
      rw [hw]
      exact lacks_tlv _ _ (by decide)
    rw [parseOptionalData_absent habsent hend hraw, ok_bind]
    dsimp only
    rw [parseYear, if_neg (by simp)]
    exact parseGeneralizedTime_eq (hreads.parseDataElement_eq hend hraw) hcontent (by omega)

end Parsers

/-! ## Times in a certificate -/

/-- Acceptance in isolation is having a value. -/
theorem accepted_iff (form : TimeForm) (contents : Bytes) (t : ℤ)
    (hlen : (tlv form.identifier contents).length < 2 ^ 63) :
    parseTime (tlv form.identifier contents) 0 (tlv form.identifier contents).length =
        .ok ((tlv form.identifier contents).length, t) ↔
      timeValue form contents = some t := by
  have hw : window (tlv form.identifier contents) 0 (tlv form.identifier contents).length =
      tlv form.identifier contents ++ [] := by
    rw [window_full, List.append_nil]
  rw [parseTime_window hw le_rfl hlen, Nat.zero_add]
  cases timeValue form contents with
  | none => simp
  | some t' => simp

/-- No faults, and an accepted Time is consumed. -/
theorem parseTime_safe {raw : Bytes} {idx parentEnd : ℕ} (hend : parentEnd ≤ raw.length)
    (hraw : raw.length < 2 ^ 63) :
    Safe (parseTime raw idx parentEnd) fun p => ∃ t : Time,
      Consumes raw idx parentEnd t.encode p.1 ∧ p.2 = t.unixTime := by
  by_cases hform : ∃ form contents r,
      window raw idx parentEnd = tlv (TimeForm.identifier form) contents ++ r
  · obtain ⟨form, contents, r, hw⟩ := hform
    have hreads := Reads.of_window hw
    have hle := hreads.end_le
    rw [parseTime_window hw hend hraw]
    cases hv : timeValue form contents with
    | none => trivial
    | some t =>
      have hlen : (tlv form.identifier contents).length < 2 ^ 63 := by
        rw [length_tlv]
        omega
      exact ⟨⟨form, contents, t, (accepted_iff form contents t hlen).mpr hv⟩,
        Consumes.of_window hw, rfl⟩
  · unfold parseTime
    rw [assertThat_eq (by decide), ok_bind]
    refine Safe.bind (parseOptionalData_safe hend hraw) ?_
    rintro ⟨start, tsEnd⟩ ⟨o, h⟩
    cases h with
    | present h => exact absurd ⟨.utcTime, _, _, h.window_eq⟩ hform
    | absent h =>
      dsimp only
      rw [parseYear, if_neg (show ¬ (0 ≠ idxNone) from not_not.mpr rfl), parseGeneralizedYear]
      simp only [bind_assoc]
      refine Safe.bind (parseDataElement_safe hend hraw) ?_
      rintro ⟨start', tsEnd'⟩ ⟨content, rest, h⟩
      exact absurd ⟨.generalizedTime, _, _, h.window_eq⟩ hform

/-- Where a Time stands, it is accepted with its timestamp. -/
theorem Time.parseTime_eq (t : Time) {raw r : Bytes} {idx parentEnd : ℕ}
    (hw : window raw idx parentEnd = t.encode ++ r) (hend : parentEnd ≤ raw.length)
    (hraw : raw.length < 2 ^ 63) :
    parseTime raw idx parentEnd = .ok (idx + t.encode.length, t.unixTime) := by
  have hle := (Reads.of_window hw).end_le
  have hlen : (tlv t.form.identifier t.contents).length < 2 ^ 63 := by
    rw [length_tlv]
    omega
  rw [parseTime_window hw hend hraw, (accepted_iff _ _ _ hlen).mp t.accepted]
  rfl

end X509Server
