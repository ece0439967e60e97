import X509Server.Analysis.TrustSpec
import X509Server.Interface.Dates

/-!
# Validity periods

`parse_time` compared with the dates of `Denotes`.  A UTCTime is read as the date it
denotes.  For a GeneralizedTime the four digits go into `tm_year` as they stand, which
counts from 1900: the date is taken 1900 years late, so its timestamp is never the one it
denotes (`timeValue_generalizedTime_ne`).
-/

set_option autoImplicit false

namespace X509Server

open Checked ByteWindow Der Calendar

/-! ## Digits -/

/-- A digit's value is below ten, and the digit is recovered from it. -/
theorem digitValue_spec {b : UInt8} (h : isDigit b) :
    0 ≤ digitValue b ∧ digitValue b < 10 ∧ UInt8.ofNat (48 + (digitValue b).toNat) = b := by
  obtain ⟨hlo, hhi⟩ := h
  have hlo' : 48 ≤ b.toNat := UInt8.le_iff_toNat_le.mp hlo
  have hhi' : b.toNat ≤ 57 := UInt8.le_iff_toNat_le.mp hhi
  unfold digitValue
  refine ⟨by omega, by omega, ?_⟩
  rw [show 48 + ((b.toNat : ℤ) - 48).toNat = b.toNat by omega, UInt8.ofNat_toNat]

theorem twoDigits_bounds {a b : UInt8} (ha : isDigit a) (hb : isDigit b) :
    0 ≤ twoDigits a b ∧ twoDigits a b < 100 := by
  obtain ⟨a1, a2, -⟩ := digitValue_spec ha
  obtain ⟨b1, b2, -⟩ := digitValue_spec hb
  unfold twoDigits
  omega

/-- Two digits are rendered as they were read. -/
theorem decimal2_twoDigits {a b : UInt8} (ha : isDigit a) (hb : isDigit b) :
    decimal2 (twoDigits a b) = [a, b] := by
  obtain ⟨a1, a2, a3⟩ := digitValue_spec ha
  obtain ⟨b1, b2, b3⟩ := digitValue_spec hb
  unfold decimal2 twoDigits
  rw [show (digitValue a * 10 + digitValue b).toNat / 10 = (digitValue a).toNat by omega,
    show (digitValue a * 10 + digitValue b).toNat % 10 = (digitValue b).toNat by omega, a3, b3]

/-- Rendering is injective below one hundred. -/
theorem decimal2_inj {v w : ℤ} (hv : 0 ≤ v ∧ v < 100) (hw : 0 ≤ w ∧ w < 100)
    (h : decimal2 v = decimal2 w) : v = w := by
  obtain ⟨htens, hrest⟩ := List.cons.inj h
  have htens' := congrArg UInt8.toNat htens
  have hunits' := congrArg UInt8.toNat (List.cons.inj hrest).1
  simp only [UInt8.toNat_ofNat'] at htens' hunits'
  omega

/-! ## Reading and rendering -/

/-- What follows the year is read as it is rendered. -/
theorem tmOfClock_spec {year : ℤ} {clock : Bytes} {tm : Tm} (h : tmOfClock year clock = some tm)
    (hmon : 0 ≤ tm.mon) : tm.year = year ∧ clock = renderClock tm.toDateTime := by
  unfold tmOfClock at h
  split at h
  · rename_i m1 m2 d1 d2 h1 h2 i1 i2 s1 s2 zone
    split at h
    · rename_i hdigits
      obtain ⟨⟨hm1, hm2⟩, ⟨hd1, hd2⟩, ⟨hh1, hh2⟩, ⟨hi1, hi2⟩, ⟨hs1, hs2⟩, rfl⟩ := hdigits
      obtain rfl := Option.some.inj h
      refine ⟨rfl, ?_⟩
      have hmonth : (((twoDigits m1 m2 - 1).toNat : ℕ) : ℤ) + 1 = twoDigits m1 m2 := by
        dsimp only at hmon
        omega
      simp only [renderClock, Tm.toDateTime]
      rw [hmonth, decimal2_twoDigits hm1 hm2, decimal2_twoDigits hd1 hd2,
        decimal2_twoDigits hh1 hh2, decimal2_twoDigits hi1 hi2, decimal2_twoDigits hs1 hs2]
      rfl
    · cases h
  · cases h

/-- An accepted Time is read as a date of the calendar, whose second it returns. -/
theorem timeValue_spec {form : TimeForm} {contents : Bytes} {t : ℤ}
    (h : timeValue form contents = some t) : ∃ tm, tmOfContents form contents = some tm ∧
      0 ≤ tm.mon ∧ tm.toDateTime.Valid ∧ t = tm.toDateTime.unixTime := by
  obtain ⟨tm, htm, hchecked⟩ := Option.bind_eq_some_iff.mp h
  unfold checkedSeconds at hchecked
  split at hchecked
  · rename_i hfixed
    obtain ⟨hvalid, hsec⟩ := timegm_fixed hfixed.2
    refine ⟨tm, htm, ?_, hvalid, (Option.some.inj hchecked).symm.trans hsec⟩
    rw [← hfixed.2]
    exact Int.natCast_nonneg _
  · cases hchecked

theorem timeValue_nonneg {form : TimeForm} {contents : Bytes} {t : ℤ}
    (h : timeValue form contents = some t) : 0 ≤ t := by
  obtain ⟨tm, -, hchecked⟩ := Option.bind_eq_some_iff.mp h
  unfold checkedSeconds at hchecked
  split at hchecked
  · rename_i hfixed
    obtain rfl := Option.some.inj hchecked
    exact hfixed.1
  · cases hchecked

theorem tmOfContents_utcTime {contents : Bytes} {tm : Tm}
    (h : tmOfContents .utcTime contents = some tm) :
    ∃ y1 y2 clock, contents = y1 :: y2 :: clock ∧ (isDigit y1 ∧ isDigit y2) ∧
      tmOfClock (twoDigits y1 y2 + (if twoDigits y1 y2 < 50 then 1 else 0) * 100) clock =
        some tm := by
  rcases contents with _ | ⟨y1, _ | ⟨y2, clock⟩⟩
  · cases h
  · cases h
  · rw [tmOfContents] at h
    split at h
    · exact ⟨y1, y2, clock, rfl, ‹_›, h⟩
    · cases h

theorem tmOfContents_generalizedTime {contents : Bytes} {tm : Tm}
    (h : tmOfContents .generalizedTime contents = some tm) :
    ∃ y1 y2 y3 y4 clock, contents = y1 :: y2 :: y3 :: y4 :: clock ∧
      ((isDigit y1 ∧ isDigit y2) ∧ (isDigit y3 ∧ isDigit y4)) ∧
      tmOfClock (twoDigits y1 y2 * 100 + twoDigits y3 y4) clock = some tm := by
  rcases contents with _ | ⟨y1, _ | ⟨y2, _ | ⟨y3, _ | ⟨y4, clock⟩⟩⟩⟩
  · cases h
  · cases h
  · cases h
  · cases h
  · rw [tmOfContents] at h
    split at h
    · exact ⟨y1, y2, y3, y4, clock, rfl, ‹_›, h⟩
    · cases h

/-- A UTCTime is read as the date it denotes. -/
theorem timeValue_utcTime {contents : Bytes} {t : ℤ}
    (h : timeValue .utcTime contents = some t) :
    ∃ d, Denotes .utcTime contents d ∧ t = d.unixTime := by
  obtain ⟨tm, htm, hmon, hvalid, hsec⟩ := timeValue_spec h
  obtain ⟨y1, y2, clock, rfl, ⟨hy1, hy2⟩, htm⟩ := tmOfContents_utcTime htm
  obtain ⟨hyear, hclock⟩ := tmOfClock_spec htm hmon
  obtain ⟨hlo, hhi⟩ := twoDigits_bounds hy1 hy2
  have hdate : tm.toDateTime.year =
      1900 + (twoDigits y1 y2 + (if twoDigits y1 y2 < 50 then 1 else 0) * 100) := by
    rw [← hyear]
    rfl
  have hmod : tm.toDateTime.year % 100 = twoDigits y1 y2 := by
    rw [hdate]
    split <;> omega
  refine ⟨tm.toDateTime, ⟨hvalid, ?_, ?_⟩, hsec⟩
  · rw [TimeForm.years, hdate]
    split <;> omega
  · rw [renderTime, hmod, decimal2_twoDigits hy1 hy2, ← hclock]
    rfl

/-- A GeneralizedTime is never read as the date it denotes, but 1900 years late. -/
theorem timeValue_generalizedTime_ne {contents : Bytes} {t : ℤ} {d : DateTime}
    (h : timeValue .generalizedTime contents = some t)
    (hd : Denotes .generalizedTime contents d) : t ≠ d.unixTime := by
  obtain ⟨tm, htm, hmon, hvalid, hsec⟩ := timeValue_spec h
  obtain ⟨y1, y2, y3, y4, clock, rfl, ⟨⟨hy1, hy2⟩, hy3, hy4⟩, htm⟩ :=
    tmOfContents_generalizedTime htm
  obtain ⟨hyear, -⟩ := tmOfClock_spec htm hmon
  obtain ⟨hlo, hhi⟩ := hd.years
  -- the contents give the digits of the date's year
  have hrender := hd.contents_eq
  rw [renderTime] at hrender
  have hcentury : [y1, y2] = decimal2 (d.year / 100) := congrArg (List.take 2) hrender
  have hrest : [y3, y4] = decimal2 (d.year % 100) :=
    congrArg (fun l => (l.drop 2).take 2) hrender
  have hc := decimal2_inj (twoDigits_bounds hy1 hy2) (by omega)
    ((decimal2_twoDigits hy1 hy2).trans hcentury)
  have hr := decimal2_inj (twoDigits_bounds hy3 hy4) (by omega)
    ((decimal2_twoDigits hy3 hy4).trans hrest)
  have hlater : d.year < tm.toDateTime.year := by
    have : tm.toDateTime.year = 1900 + tm.year := rfl
    omega
  exact hsec ▸ (unixTime_lt_of_year_lt hd.valid hvalid hlater).ne'

/-! ## UTCTime -/

/-- A number below one hundred is rendered as two digits, which are read as the number. -/
theorem exists_decimal2 {v : ℤ} (h : 0 ≤ v ∧ v < 100) :
    ∃ a b, decimal2 v = [a, b] ∧ (isDigit a ∧ isDigit b) ∧ twoDigits a b = v := by
  have htens : (UInt8.ofNat (48 + v.toNat / 10)).toNat = 48 + v.toNat / 10 := by
    rw [UInt8.toNat_ofNat']
    omega
  have hunits : (UInt8.ofNat (48 + v.toNat % 10)).toNat = 48 + v.toNat % 10 := by
    rw [UInt8.toNat_ofNat']
    omega
  refine ⟨_, _, rfl, ⟨?_, ?_⟩, ?_⟩
  · simp only [isDigit, UInt8.le_iff_toNat_le, htens, UInt8.reduceToNat]
    omega
  · simp only [isDigit, UInt8.le_iff_toNat_le, hunits, UInt8.reduceToNat]
    omega
  · unfold twoDigits digitValue
    rw [htens, hunits]
    omega

/-- A clock is read as it is rendered. -/
theorem tmOfClock_renderClock {d : DateTime} (h : d.Valid) :
    tmOfClock (d.year - 1900) (renderClock d) = some (Tm.ofDateTime d) := by
  have hmonth := h.month
  have hmonthDays := (daysInMonth_pos d.year d.month).2
  have hday := And.intro h.day_pos h.day_le
  have hhour := h.hour
  have hminute := h.minute
  have hsecond := h.second
  obtain ⟨m1, m2, hm, hm', hmon⟩ := exists_decimal2 (v := d.month + 1) (by omega)
  obtain ⟨d1, d2, hd, hd', hmday⟩ := exists_decimal2 (v := d.day) (by omega)
  obtain ⟨h1, h2, hh, hh', hhr⟩ := exists_decimal2 (v := d.hour) (by omega)
  obtain ⟨i1, i2, hi, hi', hmin⟩ := exists_decimal2 (v := d.minute) (by omega)
  obtain ⟨s1, s2, hs, hs', hsec⟩ := exists_decimal2 (v := d.second) (by omega)
  unfold renderClock
  rw [hm, hd, hh, hi, hs]
  change tmOfClock (d.year - 1900) [m1, m2, d1, d2, h1, h2, i1, i2, s1, s2, 90] = _
  rw [tmOfClock, if_pos ⟨hm', hd', hh', hi', hs', rfl⟩, hmon, hmday, hhr, hmin, hsec, Tm.ofDateTime,
    add_sub_cancel_right]

/-- A UTCTime that denotes a date of 1970 or later is read as that date. -/
theorem timeValue_of_denotes {contents : Bytes} {d : DateTime}
    (hd : Denotes .utcTime contents d) (hepoch : 1970 ≤ d.year) :
    timeValue .utcTime contents = some d.unixTime := by
  obtain ⟨hvalid, ⟨hlo, hhi⟩, rfl⟩ := hd
  obtain ⟨y1, y2, hy, hdigits, hyear⟩ := exists_decimal2 (v := d.year % 100) (by omega)
  -- the pivot gives back the century
  have hcentury : twoDigits y1 y2 + (if twoDigits y1 y2 < 50 then 1 else 0) * 100 =
      d.year - 1900 := by
    rw [hyear]
    split <;> omega
  have hnonneg : 0 ≤ d.unixTime := (unixTime_nonneg_iff hvalid).mpr hepoch
  rw [timeValue, renderTime, hy]
  change (tmOfContents .utcTime (y1 :: y2 :: renderClock d)).bind checkedSeconds = _
  rw [tmOfContents, if_pos hdigits, hcentury, tmOfClock_renderClock hvalid, Option.bind_some,
    checkedSeconds, timegm_ofDateTime hvalid, if_pos ⟨hnonneg, rfl⟩]

/-- The value of a UTCTime is the second of the date it denotes, from 1970 on. -/
theorem timeValue_utcTime_iff {contents : Bytes} {t : ℤ} :
    timeValue .utcTime contents = some t ↔
      ∃ d, Denotes .utcTime contents d ∧ 1970 ≤ d.year ∧ t = d.unixTime := by
  constructor
  · intro h
    obtain ⟨d, hd, rfl⟩ := timeValue_utcTime h
    exact ⟨d, hd, (unixTime_nonneg_iff hd.valid).mp (timeValue_nonneg h), rfl⟩
  · rintro ⟨d, hd, hepoch, rfl⟩
    exact timeValue_of_denotes hd hepoch

/-- Wherever a UTCTime stands, `parse_time` accepts it exactly if it denotes a date of 1970
or later, returns the second of that date and moves behind the element. -/
theorem parseTime_utcTime_iff (raw contents rest : Bytes) (idx parentEnd : ℕ)
    (hend : parentEnd ≤ raw.length) (hraw : raw.length < 2 ^ 63)
    (hstands : window raw idx parentEnd = tlv derUtctime contents ++ rest) :
    (∀ next t, parseTime raw idx parentEnd = .ok (next, t) ↔
      next = idx + (tlv derUtctime contents).length ∧
        ∃ d, Denotes .utcTime contents d ∧ 1970 ≤ d.year ∧ t = d.unixTime) ∧
    ∀ fault, parseTime raw idx parentEnd ≠ .error (.fault fault) := by
  refine ⟨fun next t => ?_, (parseTime_safe hend hraw).ne_fault⟩
  rw [parseTime_window (show window raw idx parentEnd =
    tlv TimeForm.utcTime.identifier contents ++ rest from hstands) hend hraw,
    ← timeValue_utcTime_iff]
  cases timeValue .utcTime contents with
  | none => simp [reject]
  | some t' =>
    simp only [Except.ok.injEq, Prod.mk.injEq, Option.some.injEq]
    exact and_congr_left' eq_comm

/-- The first second of 1970. -/
theorem parseTime_utcTime_iff_epoch :
    parseTime epoch.encode 0 epoch.encode.length = .ok (15, 0) ∧
      ∃ d, Denotes .utcTime epoch.contents d ∧ 1970 ≤ d.year ∧ 0 = d.unixTime := by
  have hstands : window epoch.encode 0 epoch.encode.length =
      tlv derUtctime epoch.contents ++ [] := by
    rw [window_full, List.append_nil]
    rfl
  have hok : parseTime epoch.encode 0 epoch.encode.length = .ok (15, 0) := by decide +kernel
  have hread := (parseTime_utcTime_iff epoch.encode epoch.contents [] 0 epoch.encode.length le_rfl
    (by decide +kernel) hstands).1 15 0
  exact ⟨hok, (hread.mp hok).2⟩

/-! ## GeneralizedTime -/

/-- What a GeneralizedTime is taken for is its value. -/
theorem TakenFor.timeValue_eq {contents : Bytes} {d : DateTime} (h : TakenFor contents d) :
    timeValue .generalizedTime contents = some d.unixTime := by
  obtain ⟨hvalid, ⟨hepoch, hlast⟩, rfl⟩ := h
  obtain ⟨y1, y2, hcentury, hdigits, hyears⟩ :=
    exists_decimal2 (v := (laterBy d (-1900)).year / 100) (by simp only [laterBy]; omega)
  obtain ⟨y3, y4, hrest, hdigits', hyears'⟩ :=
    exists_decimal2 (v := (laterBy d (-1900)).year % 100) (by simp only [laterBy]; omega)
  -- the four digits are the years from 1900
  have hyear : twoDigits y1 y2 * 100 + twoDigits y3 y4 = d.year - 1900 := by
    rw [hyears, hyears']
    simp only [laterBy]
    omega
  have hnonneg : 0 ≤ d.unixTime := (unixTime_nonneg_iff hvalid).mpr hepoch
  rw [timeValue, renderTime, hcentury, hrest]
  change (tmOfContents .generalizedTime (y1 :: y2 :: y3 :: y4 :: renderClock d)).bind
    checkedSeconds = _
  rw [tmOfContents, if_pos ⟨hdigits, hdigits'⟩, hyear, tmOfClock_renderClock hvalid,
    Option.bind_some, checkedSeconds, timegm_ofDateTime hvalid, if_pos ⟨hnonneg, rfl⟩]

/-- An accepted GeneralizedTime is taken for a date. -/
theorem exists_takenFor {contents : Bytes} {t : ℤ}
    (h : timeValue .generalizedTime contents = some t) :
    ∃ d, TakenFor contents d ∧ t = d.unixTime := by
  have hnonneg := timeValue_nonneg h
  obtain ⟨tm, htm, hmon, hvalid, rfl⟩ := timeValue_spec h
  obtain ⟨y1, y2, y3, y4, clock, rfl, ⟨⟨hy1, hy2⟩, hy3, hy4⟩, htm⟩ :=
    tmOfContents_generalizedTime htm
  obtain ⟨hyear, hclock⟩ := tmOfClock_spec htm hmon
  have hcentury := twoDigits_bounds hy1 hy2
  have hrest := twoDigits_bounds hy3 hy4
  have hdate : (laterBy tm.toDateTime (-1900)).year =
      twoDigits y1 y2 * 100 + twoDigits y3 y4 := by
    rw [← hyear]
    simp only [laterBy, Tm.toDateTime]
    omega
  have hdiv : (laterBy tm.toDateTime (-1900)).year / 100 = twoDigits y1 y2 := by omega
  have hmod : (laterBy tm.toDateTime (-1900)).year % 100 = twoDigits y3 y4 := by omega
  refine ⟨tm.toDateTime, ⟨hvalid, ⟨(unixTime_nonneg_iff hvalid).mp hnonneg, ?_⟩, ?_⟩, rfl⟩
  · simp only [laterBy] at hdate
    omega
  · rw [renderTime, hdiv, hmod, decimal2_twoDigits hy1 hy2, decimal2_twoDigits hy3 hy4, hclock]
    rfl

theorem timeValue_generalizedTime_iff {contents : Bytes} {t : ℤ} :
    timeValue .generalizedTime contents = some t ↔
      ∃ d, TakenFor contents d ∧ t = d.unixTime := by
  constructor
  · exact exists_takenFor
  · rintro ⟨d, htaken, rfl⟩
    exact htaken.timeValue_eq

/-- The fields behind the year have two digits. -/
def ClockFits (d : DateTime) : Prop :=
  d.month < 99 ∧ (0 ≤ d.day ∧ d.day < 100) ∧ (0 ≤ d.hour ∧ d.hour < 100) ∧
    (0 ≤ d.minute ∧ d.minute < 100) ∧ (0 ≤ d.second ∧ d.second < 100)

theorem clockFits_of_valid {d : DateTime} (h : d.Valid) : ClockFits d := by
  have hmonth := h.month
  have hmonthDays := (daysInMonth_pos d.year d.month).2
  have hday := And.intro h.day_pos h.day_le
  have hhour := h.hour
  have hminute := h.minute
  have hsecond := h.second
  unfold ClockFits
  omega

/-- The contents of a GeneralizedTime show one date. -/
theorem renderTime_inj {d e : DateTime} (hd : ClockFits d) (he : ClockFits e)
    (hyear : 0 ≤ d.year ∧ d.year < 10000) (hyear' : 0 ≤ e.year ∧ e.year < 10000)
    (h : renderTime .generalizedTime d = renderTime .generalizedTime e) : d = e := by
  obtain ⟨hm, hday, hhour, hmin, hsec⟩ := hd
  obtain ⟨hm', hday', hhour', hmin', hsec'⟩ := he
  obtain ⟨hcentury, h⟩ := List.append_inj h rfl
  obtain ⟨hrest, h⟩ := List.append_inj h rfl
  obtain ⟨hmonths, h⟩ := List.append_inj h rfl
  obtain ⟨hdays, h⟩ := List.append_inj h rfl
  obtain ⟨hhours, h⟩ := List.append_inj h rfl
  obtain ⟨hmins, h⟩ := List.append_inj h rfl
  obtain ⟨hsecs, -⟩ := List.append_inj h rfl
  have hcentury := decimal2_inj (by omega) (by omega) hcentury
  have hrest := decimal2_inj (by omega) (by omega) hrest
  have hmonths := decimal2_inj (by omega) (by omega) hmonths
  have hdays := decimal2_inj hday hday' hdays
  have hhours := decimal2_inj hhour hhour' hhours
  have hmins := decimal2_inj hmin hmin' hmins
  have hsecs := decimal2_inj hsec hsec' hsecs
  cases d
  cases e
  dsimp only at *
  rw [DateTime.mk.injEq]
  exact ⟨by omega, by omega, hdays, hhours, hmins, hsecs⟩

/-- Only 29 February need not exist in a later year. -/
theorem laterBy_valid_iff {d : DateTime} (h : d.Valid) (years : ℤ) :
    (laterBy d years).Valid ↔ (d.month = 1 → d.day = 29 → isLeap (d.year + years) = true) := by
  have hday := h.day_le
  constructor
  · intro hlater hmonth hlast
    have hle := hlater.day_le
    dsimp only [laterBy] at hle
    rw [hmonth, hlast, daysInMonth, if_pos rfl] at hle
    by_contra hleap
    rw [if_neg hleap] at hle
    omega
  · intro hleap
    refine ⟨h.month, h.day_pos, ?_, h.hour, h.minute, h.second⟩
    dsimp only [laterBy]
    by_cases hmonth : d.month = 1
    · unfold daysInMonth at hday ⊢
      rw [if_pos hmonth] at hday ⊢
      by_cases hlast : d.day = 29
      · rw [if_pos (hleap hmonth hlast), hlast]
      · split at hday <;> split <;> omega
    · unfold daysInMonth at hday ⊢
      rwa [if_neg hmonth] at hday ⊢

/-- A GeneralizedTime that denotes a date is taken for it 1900 years later. -/
theorem Denotes.takenFor_iff {contents : Bytes} {d e : DateTime}
    (hd : Denotes .generalizedTime contents d) : TakenFor contents e ↔
      e = laterBy d 1900 ∧ 70 ≤ d.year ∧
        (d.month = 1 → d.day = 29 → isLeap (d.year + 1900) = true) := by
  obtain ⟨hvalid, ⟨hlo, hhi⟩, rfl⟩ := hd
  rw [← laterBy_valid_iff hvalid]
  constructor
  · rintro ⟨hvalid', ⟨hepoch, hlast⟩, heq⟩
    have hfits : ClockFits e := clockFits_of_valid hvalid'
    have hyear : 0 ≤ (laterBy e (-1900)).year ∧ (laterBy e (-1900)).year < 10000 := by
      dsimp only [laterBy]
      omega
    have hsame : d = laterBy e (-1900) :=
      renderTime_inj (clockFits_of_valid hvalid) hfits ⟨hlo, hhi⟩ hyear heq
    subst hsame
    have hback : laterBy (laterBy e (-1900)) 1900 = e := by
      simp [laterBy]
    rw [hback]
    dsimp only [laterBy]
    exact ⟨rfl, by omega, hvalid'⟩
  · rintro ⟨rfl, hyear, hlater⟩
    refine ⟨hlater, ?_, ?_⟩
    · dsimp only [laterBy]
      omega
    · simp [laterBy]

/-- Wherever a GeneralizedTime stands, `parse_time` accepts it exactly if its digits show a date
when the year is counted from 1900, returns the second of that date and moves behind the
element.  So a date that the contents denote is taken for the same day 1900 years later, from
the year 70 on, and a 29 February is refused if it is missing then. -/
theorem parseTime_generalizedTime_iff (raw contents rest : Bytes) (idx parentEnd : ℕ)
    (hend : parentEnd ≤ raw.length) (hraw : raw.length < 2 ^ 63)
    (hstands : window raw idx parentEnd = tlv derGeneralizedtime contents ++ rest) :
    (∀ next t, parseTime raw idx parentEnd = .ok (next, t) ↔
      next = idx + (tlv derGeneralizedtime contents).length ∧
        ∃ d, TakenFor contents d ∧ t = d.unixTime) ∧
    (∀ d, Denotes .generalizedTime contents d → ∀ next t,
      parseTime raw idx parentEnd = .ok (next, t) ↔
        next = idx + (tlv derGeneralizedtime contents).length ∧
          t = (laterBy d 1900).unixTime ∧ 70 ≤ d.year ∧
          (d.month = 1 → d.day = 29 → isLeap (d.year + 1900) = true)) ∧
    ∀ fault, parseTime raw idx parentEnd ≠ .error (.fault fault) := by
  have hread : ∀ next t, parseTime raw idx parentEnd = .ok (next, t) ↔
      next = idx + (tlv derGeneralizedtime contents).length ∧
        ∃ d, TakenFor contents d ∧ t = d.unixTime := by
    intro next t
    rw [parseTime_window (show window raw idx parentEnd =
      tlv TimeForm.generalizedTime.identifier contents ++ rest from hstands) hend hraw,
      ← timeValue_generalizedTime_iff]
    cases timeValue .generalizedTime contents with
    | none => simp [reject]
    | some t' =>
      simp only [Except.ok.injEq, Prod.mk.injEq, Option.some.injEq]
      exact and_congr_left' eq_comm
  refine ⟨hread, fun d hd next t => ?_, (parseTime_safe hend hraw).ne_fault⟩
  rw [hread]
  apply and_congr_right'
  constructor
  · rintro ⟨e, htaken, rfl⟩
    obtain ⟨rfl, hexists⟩ := hd.takenFor_iff.mp htaken
    exact ⟨rfl, hexists⟩
  · rintro ⟨rfl, hexists⟩
    exact ⟨laterBy d 1900, hd.takenFor_iff.mpr ⟨rfl, hexists⟩, rfl⟩

/-- 29 February 2000: there is none in 3900. -/
theorem parseTime_generalizedTime_iff_leapDay :
    let d : DateTime := ⟨2000, 1, 29, 0, 0, 0⟩
    let contents := renderTime .generalizedTime d
    Denotes .generalizedTime contents d ∧
      ∀ next t, parseTime (tlv derGeneralizedtime contents) 0 17 ≠ .ok (next, t) := by
  intro d contents
  have hstands : window (tlv derGeneralizedtime contents) 0 17 =
      tlv derGeneralizedtime contents ++ [] := by decide +kernel
  have hdenotes : Denotes .generalizedTime contents d := by
    refine ⟨by constructor <;> decide, ?_, rfl⟩
    simp only [TimeForm.years, d]
    omega
  refine ⟨hdenotes, fun next t hok => ?_⟩
  obtain ⟨-, hread, -⟩ := parseTime_generalizedTime_iff (tlv derGeneralizedtime contents)
    contents [] 0 17 (by decide +kernel) (by decide +kernel) hstands
  obtain ⟨-, -, -, hleap⟩ := (hread d hdenotes next t).mp hok
  exact absurd (hleap rfl rfl) (by decide)

/-! ## Times in a certificate -/

/-- The timestamp of a Time in an accepted certificate. -/
theorem Time.timeValue_eq (t : Time) (hlen : t.encode.length < 2 ^ 63) :
    timeValue t.form t.contents = some t.unixTime :=
  (accepted_iff t.form t.contents t.unixTime hlen).mp t.accepted

/-- A Time is read as the date it denotes exactly if it is a UTCTime. -/
theorem Time.denotes_iff (t : Time) (hlen : t.encode.length < 2 ^ 63) :
    (∃ d, t.Denotes d ∧ t.unixTime = d.unixTime) ↔ t.form = .utcTime := by
  have hvalue := t.timeValue_eq hlen
  unfold Time.Denotes
  cases hform : t.form with
  | utcTime =>
    rw [hform] at hvalue
    exact iff_of_true (timeValue_utcTime hvalue) rfl
  | generalizedTime =>
    rw [hform] at hvalue
    refine iff_of_false ?_ (by decide)
    rintro ⟨d, hd, heq⟩
    exact timeValue_generalizedTime_ne hvalue hd heq

/-! ## The validity period -/

/-- The timestamp of a Time is the second of the date it is read as. -/
theorem Time.exists_readAs (t : Time) (hlen : t.encode.length < 2 ^ 63) :
    ∃ d, t.ReadAs d ∧ t.unixTime = d.unixTime := by
  have hvalue := t.timeValue_eq hlen
  unfold Time.ReadAs Time.Denotes
  cases hform : t.form with
  | utcTime =>
    rw [hform] at hvalue
    exact timeValue_utcTime hvalue
  | generalizedTime =>
    rw [hform] at hvalue
    exact exists_takenFor hvalue

theorem Certificate.time_length_le (c : Certificate) :
    c.tbsCertificate.notBefore.encode.length ≤ c.encode.length ∧
      c.tbsCertificate.notAfter.encode.length ≤ c.encode.length := by
  have htbs := c.tbs_length_le
  have hcontent := congrArg List.length (TbsCertificate.content.eq_def c.tbsCertificate)
  simp only [List.length_append, TbsCertificate.encodeValidity, length_tlv] at hcontent
  rw [TbsCertificate.encode, length_tlv] at htbs
  omega

/-- The validity period of a certificate has been read and applied as the dates it
denotes. -/
structure ValidityDecoded (c : Certificate) (f : X509Fields) (now : ℤ) (pub : PubKey) :
    Prop where
  notBefore : ∃ d, c.tbsCertificate.notBefore.Denotes d ∧ f.notBefore = d.unixTime ∧
    d.unixTime ≤ now
  notAfter : ∃ d, c.tbsCertificate.notAfter.Denotes d ∧ f.notAfter = d.unixTime ∧
    now ≤ d.unixTime ∧ pub.expiry = d.unixTime

/-- The validity period of a certificate whose key is handed out is the one it denotes
exactly if both its Times are UTCTimes. -/
theorem accepted_validityDecoded_iff (env : OpenSsl) (raw : Bytes) (f₀ f : X509Fields)
    (now : ℤ) (pub pub' : PubKey) (w w' : World) (hraw : raw.length < 2 ^ 63)
    (hok : parseX509 raw f₀ = .ok f)
    (hextract : extractSelfSignForCodeSign env raw f now pub w = .ok (.certOk, pub', w')) :
    (∃ c : Certificate, c.encode = raw) ∧ ∀ c : Certificate, c.encode = raw →
      (ValidityDecoded c f now pub' ↔ c.tbsCertificate.notBefore.form = .utcTime ∧
        c.tbsCertificate.notAfter.form = .utcTime) := by
  refine ⟨(parseX509_accepts_iff raw f₀ hraw).mp ⟨f, hok⟩, ?_⟩
  rintro c rfl
  rw [parseX509_encode c f₀ hraw] at hok
  obtain rfl := Except.ok.inj hok
  obtain ⟨htrusted, ⟨hfrom, hto⟩, -⟩ := (extract_safe env c hraw now pub w).of_ok hextract rfl
  obtain ⟨hlen, hlen'⟩ := c.time_length_le
  have hbefore : c.fields.notBefore = c.tbsCertificate.notBefore.unixTime := by
    rw [c.fields_eq]
    rfl
  have hafter : c.fields.notAfter = c.tbsCertificate.notAfter.unixTime := by
    rw [c.fields_eq]
    rfl
  rw [← c.tbsCertificate.notBefore.denotes_iff (by omega),
    ← c.tbsCertificate.notAfter.denotes_iff (by omega)]
  constructor
  · rintro ⟨⟨d, hd, heq, -⟩, ⟨d', hd', heq', -⟩⟩
    exact ⟨⟨d, hd, hbefore.symm.trans heq⟩, ⟨d', hd', hafter.symm.trans heq'⟩⟩
  · rintro ⟨⟨d, hd, heq⟩, ⟨d', hd', heq'⟩⟩
    have hexpiry := htrusted.expiry
    exact ⟨⟨d, hd, hbefore.trans heq, by omega⟩,
      ⟨d', hd', hafter.trans heq', by omega, hexpiry.trans heq'⟩⟩

/-- The certificate of the epoch, which uses UTCTime twice. -/
theorem accepted_validityDecoded_iff_epoch : ∃ pub,
    (∃ c : Certificate, c.encode = (ed25519Certificate epoch signingUsage 0).encode) ∧
      ∀ c : Certificate, c.encode = (ed25519Certificate epoch signingUsage 0).encode →
        (ValidityDecoded c (ed25519Certificate epoch signingUsage 0).fields 0 pub ↔
          c.tbsCertificate.notBefore.form = .utcTime ∧
            c.tbsCertificate.notAfter.form = .utcTime) := by
  obtain ⟨pub, w, h⟩ := eq_ok_of_extractedCode .certOk
    (r := extractSelfSignForCodeSign .accepting
      (ed25519Certificate epoch signingUsage 0).encode
      (ed25519Certificate epoch signingUsage 0).fields 0 .unwritten .initial) (by decide +kernel)
  exact ⟨pub, accepted_validityDecoded_iff .accepting _
    (ed25519Certificate epoch signingUsage 0).fields _ 0 .unwritten pub .initial w
    (by decide +kernel) (by decide +kernel) h⟩

/-- 20500101000000Z, which the parser takes for the first second of 3950. -/
def year2050 : Time where
  form := .generalizedTime
  contents := [50, 48, 53, 48, 48, 49, 48, 49, 48, 48, 48, 48, 48, 48, 90]
  unixTime := 62482752000
  accepted := by decide +kernel

/-- A certificate valid until 2050, in GeneralizedTime: in the year 3000 its key is still
handed out. -/
theorem year2050_misread :
    ∃ pub w, parseX509 (ed25519Certificate year2050 signingUsage 0).encode
        (ed25519Certificate epoch signingUsage 0).fields =
          .ok (ed25519Certificate year2050 signingUsage 0).fields ∧
      extractSelfSignForCodeSign .accepting
        (ed25519Certificate year2050 signingUsage 0).encode
        (ed25519Certificate year2050 signingUsage 0).fields 32503680000 .unwritten .initial =
          .ok (.certOk, pub, w) ∧
      ¬ ValidityDecoded (ed25519Certificate year2050 signingUsage 0)
        (ed25519Certificate year2050 signingUsage 0).fields 32503680000 pub := by
  obtain ⟨pub, w, h⟩ := eq_ok_of_extractedCode .certOk
    (r := extractSelfSignForCodeSign .accepting
      (ed25519Certificate year2050 signingUsage 0).encode
      (ed25519Certificate year2050 signingUsage 0).fields 32503680000 .unwritten .initial)
    (by decide +kernel)
  refine ⟨pub, w, parseX509_encode _ _ (by decide +kernel), h, ?_⟩
  rintro ⟨-, d, hd, heq, -⟩
  exact timeValue_generalizedTime_ne (year2050.timeValue_eq (by decide +kernel)) hd heq

end X509Server
