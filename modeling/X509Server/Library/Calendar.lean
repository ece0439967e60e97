import Mathlib.Tactic.Common
import Mathlib.Tactic.Linarith
import Mathlib.Tactic.Ring

/-!
# The proleptic Gregorian calendar and `timegm`

Day numbers count from 1970-01-01, months of a year from 0.  `unixTime` is the number of
seconds of a date and time of day, without leap seconds.  `timegm` is the conversion of a
`struct tm` of the C library: it accepts fields outside their ranges, returns the second
they add up to and overwrites them with the date and time of day of that second.

`timegm_fixed` is what a caller may rely on who compares the fields before and after:
where `timegm` leaves them alone, they are a date of the calendar and the result is its
`unixTime`.
-/

set_option autoImplicit false

namespace Calendar

/-! ## Years and months -/

/-- Every fourth year, but of the centuries only every fourth. -/
def isLeap (y : ℤ) : Bool := decide (y % 4 = 0 ∧ (y % 100 ≠ 0 ∨ y % 400 = 0))

def daysInYear (y : ℤ) : ℤ := if isLeap y then 366 else 365

/-- The length of a month, January being month 0. -/
def daysInMonth (y : ℤ) (month : ℕ) : ℤ :=
  if month = 1 then (if isLeap y then 29 else 28)
  else if month = 3 ∨ month = 5 ∨ month = 8 ∨ month = 10 then 30
  else 31

/-- The leap years before year `y`, up to a constant. -/
def leapsBefore (y : ℤ) : ℤ := (y - 1) / 4 - (y - 1) / 100 + (y - 1) / 400

/-- The day number of 1 January of year `y`. -/
def daysBeforeYear (y : ℤ) : ℤ :=
  365 * (y - 1970) + (leapsBefore y - leapsBefore 1970)

/-- The days of year `y` before the first day of a month. -/
def daysBeforeMonth (y : ℤ) : ℕ → ℤ
  | 0 => 0
  | month + 1 => daysBeforeMonth y month + daysInMonth y month

theorem daysBeforeYear_epoch : daysBeforeYear 1970 = 0 := by decide

/-- The day numbers of consecutive New Years' days differ by the length of the year. -/
theorem daysBeforeYear_succ (y : ℤ) :
    daysBeforeYear (y + 1) = daysBeforeYear y + daysInYear y := by
  have hleap : (leapsBefore (y + 1) - leapsBefore y) + 365 = daysInYear y := by
    unfold leapsBefore daysInYear isLeap
    by_cases h4 : y % 4 = 0 <;> by_cases h100 : y % 100 = 0 <;> by_cases h400 : y % 400 = 0 <;>
      simp [h4, h100, h400] <;> omega
  unfold daysBeforeYear
  omega

theorem daysInYear_pos (y : ℤ) : 365 ≤ daysInYear y ∧ daysInYear y ≤ 366 := by
  unfold daysInYear
  split <;> omega

theorem daysInMonth_pos (y : ℤ) (month : ℕ) :
    28 ≤ daysInMonth y month ∧ daysInMonth y month ≤ 31 := by
  unfold daysInMonth
  split_ifs <;> omega

/-- Twelve months make a year. -/
theorem daysBeforeMonth_twelve (y : ℤ) : daysBeforeMonth y 12 = daysInYear y := by
  cases h : isLeap y <;> simp [daysBeforeMonth, daysInMonth, daysInYear, h]

theorem daysBeforeMonth_mono (y : ℤ) {m n : ℕ} (h : m ≤ n) :
    daysBeforeMonth y m ≤ daysBeforeMonth y n := by
  induction h with
  | refl => exact le_rfl
  | @step k _ ih =>
    have hpos := daysInMonth_pos y k
    simp only [daysBeforeMonth]
    omega

/-- Within a year the days before a month are fewer than the year has. -/
theorem daysBeforeMonth_bounds (y : ℤ) {m : ℕ} (h : m < 12) :
    0 ≤ daysBeforeMonth y m ∧ daysBeforeMonth y m + daysInMonth y m ≤ daysInYear y := by
  have hstart := daysBeforeMonth_mono y (Nat.zero_le m)
  have hend := daysBeforeMonth_mono y (show m + 1 ≤ 12 by omega)
  rw [daysBeforeMonth_twelve] at hend
  exact ⟨hstart, hend⟩

/-- At least 365 days lie between two New Years' days. -/
theorem daysBeforeYear_add (y : ℤ) (n : ℕ) :
    daysBeforeYear y + 365 * n ≤ daysBeforeYear (y + n) := by
  induction n with
  | zero => simp
  | succ n ih =>
    have hsucc := daysBeforeYear_succ (y + n)
    have hpos := daysInYear_pos (y + n)
    push_cast
    rw [← add_assoc, hsucc]
    linarith [hpos.1]

/-! ## Dates -/

/-- A date and a time of day; January is month 0. -/
structure DateTime where
  year : ℤ
  month : ℕ
  day : ℤ
  hour : ℤ
  minute : ℤ
  second : ℤ
  deriving DecidableEq, Repr

/-- The date exists in the calendar and the time exists in a day. -/
structure DateTime.Valid (d : DateTime) : Prop where
  month : d.month < 12
  day_pos : 1 ≤ d.day
  day_le : d.day ≤ daysInMonth d.year d.month
  hour : 0 ≤ d.hour ∧ d.hour < 24
  minute : 0 ≤ d.minute ∧ d.minute < 60
  second : 0 ≤ d.second ∧ d.second < 60

/-- The seconds from 1970-01-01 00:00:00. -/
def DateTime.unixTime (d : DateTime) : ℤ :=
  (daysBeforeYear d.year + daysBeforeMonth d.year d.month + (d.day - 1)) * 86400 +
    d.hour * 3600 + d.minute * 60 + d.second

/-- A date is later than every date of an earlier year. -/
theorem unixTime_lt_of_year_lt {d d' : DateTime} (h : d.Valid) (h' : d'.Valid)
    (hyear : d.year < d'.year) : d.unixTime < d'.unixTime := by
  obtain ⟨hm0, hm1⟩ := daysBeforeMonth_bounds d.year h.month
  obtain ⟨hm0', -⟩ := daysBeforeMonth_bounds d'.year h'.month
  have hday := h.day_le
  have hday' := h'.day_pos
  have hsucc := daysBeforeYear_succ d.year
  obtain ⟨n, hn⟩ : ∃ n : ℕ, d'.year = d.year + 1 + n :=
    ⟨(d'.year - (d.year + 1)).toNat, by omega⟩
  have hlater := daysBeforeYear_add (d.year + 1) n
  rw [← hn] at hlater
  obtain ⟨hh, hi, hs⟩ := And.intro h.hour (And.intro h.minute h.second)
  obtain ⟨hh', hi', hs'⟩ := And.intro h'.hour (And.intro h'.minute h'.second)
  unfold DateTime.unixTime
  omega

/-- A date is later than every date of an earlier month of its year. -/
theorem unixTime_lt_of_month_lt {d d' : DateTime} (h : d.Valid) (h' : d'.Valid)
    (hyear : d.year = d'.year) (hmonth : d.month < d'.month) : d.unixTime < d'.unixTime := by
  have hnext := daysBeforeMonth_mono d.year (show d.month + 1 ≤ d'.month by omega)
  rw [daysBeforeMonth] at hnext
  have hday := h.day_le
  have hday' := h'.day_pos
  obtain ⟨hh, hi, hs⟩ := And.intro h.hour (And.intro h.minute h.second)
  obtain ⟨hh', hi', hs'⟩ := And.intro h'.hour (And.intro h'.minute h'.second)
  unfold DateTime.unixTime
  rw [← hyear]
  omega

/-- No second belongs to two dates. -/
theorem unixTime_injective {d d' : DateTime} (h : d.Valid) (h' : d'.Valid)
    (heq : d.unixTime = d'.unixTime) : d = d' := by
  have hyear : d.year = d'.year := by
    rcases lt_trichotomy d.year d'.year with hlt | hsame | hlt
    · exact absurd heq (unixTime_lt_of_year_lt h h' hlt).ne
    · exact hsame
    · exact absurd heq (unixTime_lt_of_year_lt h' h hlt).ne'
  have hmonth : d.month = d'.month := by
    rcases lt_trichotomy d.month d'.month with hlt | hsame | hlt
    · exact absurd heq (unixTime_lt_of_month_lt h h' hyear hlt).ne
    · exact hsame
    · exact absurd heq (unixTime_lt_of_month_lt h' h hyear.symm hlt).ne'
  obtain ⟨hh, hi, hs⟩ := And.intro h.hour (And.intro h.minute h.second)
  obtain ⟨hh', hi', hs'⟩ := And.intro h'.hour (And.intro h'.minute h'.second)
  obtain ⟨year, month, day, hour, minute, second⟩ := d
  obtain ⟨year', month', day', hour', minute', second'⟩ := d'
  dsimp only [DateTime.unixTime] at *
  subst hyear hmonth
  -- the rest are the digits of one number
  rw [DateTime.mk.injEq]
  refine ⟨rfl, rfl, ?_, ?_, ?_, ?_⟩ <;> omega

/-- The first second that is not negative is the first one of 1970. -/
theorem unixTime_nonneg_iff {d : DateTime} (h : d.Valid) : 0 ≤ d.unixTime ↔ 1970 ≤ d.year := by
  constructor
  · intro hnonneg
    by_contra hyear
    have hepoch : DateTime.Valid ⟨1970, 0, 1, 0, 0, 0⟩ := by constructor <;> decide
    have hlt := unixTime_lt_of_year_lt h hepoch (show d.year < 1970 by omega)
    rw [show DateTime.unixTime ⟨1970, 0, 1, 0, 0, 0⟩ = 0 by decide] at hlt
    omega
  · intro hyear
    obtain ⟨n, hn⟩ : ∃ n : ℕ, d.year = 1970 + n := ⟨(d.year - 1970).toNat, by omega⟩
    have hyears := daysBeforeYear_add 1970 n
    rw [daysBeforeYear_epoch, ← hn] at hyears
    have hmonths := (daysBeforeMonth_bounds d.year h.month).1
    have hday := h.day_pos
    obtain ⟨hh, hi, hs⟩ := And.intro h.hour (And.intro h.minute h.second)
    unfold DateTime.unixTime
    omega

/-- The year a day number falls into: an estimate from the length of 400 years, which is
off by at most one. -/
def yearOfDay (n : ℤ) : ℤ :=
  let y := 1970 + n * 400 / 146097
  if n < daysBeforeYear y then y - 1
  else if n < daysBeforeYear (y + 1) then y
  else y + 1

theorem yearOfDay_spec (n : ℤ) :
    daysBeforeYear (yearOfDay n) ≤ n ∧ n < daysBeforeYear (yearOfDay n + 1) := by
  unfold yearOfDay
  simp only
  generalize hy : 1970 + n * 400 / 146097 = y
  have hlo : daysBeforeYear (y - 1) ≤ n := by
    unfold daysBeforeYear leapsBefore
    omega
  have hhi : n < daysBeforeYear (y + 1 + 1) := by
    unfold daysBeforeYear leapsBefore
    omega
  split_ifs with h1 h2
  · exact ⟨hlo, by simpa using h1⟩
  · exact ⟨by omega, h2⟩
  · exact ⟨by omega, hhi⟩

/-- Month and day of month of the day `d` counted from the first day of `month`, with
`left` further months in the year. -/
def splitMonth (y : ℤ) : ℕ → ℕ → ℤ → ℕ × ℤ
  | 0, month, d => (month, d + 1)
  | left + 1, month, d =>
    if d < daysInMonth y month then (month, d + 1)
    else splitMonth y left (month + 1) (d - daysInMonth y month)

theorem splitMonth_spec (y : ℤ) (left month : ℕ) (d : ℤ) (h0 : 0 ≤ d)
    (h : daysBeforeMonth y month + d < daysBeforeMonth y (month + left + 1)) :
    (splitMonth y left month d).1 ≤ month + left ∧ 1 ≤ (splitMonth y left month d).2 ∧
      (splitMonth y left month d).2 ≤ daysInMonth y (splitMonth y left month d).1 ∧
      daysBeforeMonth y (splitMonth y left month d).1 + ((splitMonth y left month d).2 - 1) =
        daysBeforeMonth y month + d := by
  induction left generalizing month d with
  | zero =>
    simp only [splitMonth, daysBeforeMonth, Nat.add_zero] at h ⊢
    refine ⟨le_rfl, ?_, ?_, ?_⟩ <;> linarith
  | succ left ih =>
    simp only [splitMonth]
    split_ifs with hd
    · simp only
      refine ⟨by omega, ?_, ?_, ?_⟩ <;> omega
    · have hnext := ih (month + 1) (d - daysInMonth y month) (by omega) (by
        rw [show month + 1 + left + 1 = month + (left + 1) + 1 by omega]
        simp only [daysBeforeMonth] at h ⊢
        linarith)
      obtain ⟨h1, h2, h3, h4⟩ := hnext
      refine ⟨by omega, h2, h3, ?_⟩
      rw [h4]
      simp only [daysBeforeMonth]
      ring

/-- The date and time of day of a second. -/
def ofUnixTime (t : ℤ) : DateTime :=
  let n := t / 86400
  let y := yearOfDay n
  let md := splitMonth y 11 0 (n - daysBeforeYear y)
  { year := y, month := md.1, day := md.2
    hour := t % 86400 / 3600, minute := t % 3600 / 60, second := t % 60 }

/-- `ofUnixTime` yields a date of the calendar, and the one of that second. -/
theorem ofUnixTime_spec (t : ℤ) : (ofUnixTime t).Valid ∧ (ofUnixTime t).unixTime = t := by
  have hyear := yearOfDay_spec (t / 86400)
  rw [daysBeforeYear_succ] at hyear
  have hmonth := splitMonth_spec (yearOfDay (t / 86400)) 11 0
    (t / 86400 - daysBeforeYear (yearOfDay (t / 86400))) (by omega) (by
      rw [show 0 + 11 + 1 = 12 by rfl, daysBeforeMonth_twelve]
      simp only [daysBeforeMonth]
      omega)
  simp only [daysBeforeMonth, zero_add] at hmonth
  obtain ⟨hm, hd1, hd2, hday⟩ := hmonth
  constructor
  · refine ⟨?_, hd1, hd2, ?_, ?_, ?_⟩ <;> simp only [ofUnixTime] <;> omega
  · simp only [DateTime.unixTime, ofUnixTime]
    omega

/-! ## `struct tm` -/

/-- The fields of `struct tm` that `timegm` reads: years from 1900, months from 0. -/
@[ext]
structure Tm where
  year : ℤ
  mon : ℤ
  mday : ℤ
  hour : ℤ
  min : ℤ
  sec : ℤ
  deriving DecidableEq, Repr

/-- The second a `struct tm` adds up to; surplus months count as years, everything below
as seconds. -/
def Tm.seconds (tm : Tm) : ℤ :=
  let year := 1900 + tm.year + tm.mon / 12
  let month := (tm.mon % 12).toNat
  (daysBeforeYear year + daysBeforeMonth year month + (tm.mday - 1)) * 86400 +
    tm.hour * 3600 + tm.min * 60 + tm.sec

def Tm.ofDateTime (d : DateTime) : Tm :=
  { year := d.year - 1900, mon := d.month, mday := d.day
    hour := d.hour, min := d.minute, sec := d.second }

/-- The date and time of day a normalised `struct tm` stands for. -/
def Tm.toDateTime (tm : Tm) : DateTime :=
  { year := 1900 + tm.year, month := tm.mon.toNat, day := tm.mday
    hour := tm.hour, minute := tm.min, second := tm.sec }

/-- `timegm`: the second and the normalised fields. -/
def timegm (tm : Tm) : ℤ × Tm := (tm.seconds, Tm.ofDateTime (ofUnixTime tm.seconds))

/-- Where `timegm` leaves the fields alone, they are a date of the calendar, and the result
is its second. -/
theorem timegm_fixed {tm : Tm} (h : (timegm tm).2 = tm) :
    tm.toDateTime.Valid ∧ (timegm tm).1 = tm.toDateTime.unixTime := by
  obtain ⟨hvalid, hsec⟩ := ofUnixTime_spec tm.seconds
  have hdate : tm.toDateTime = ofUnixTime tm.seconds := by
    conv_lhs => rw [← h]
    simp [timegm, Tm.ofDateTime, Tm.toDateTime]
  exact ⟨hdate ▸ hvalid, by rw [hdate, hsec, timegm]⟩

theorem Tm.seconds_ofDateTime {d : DateTime} (h : d.Valid) :
    (Tm.ofDateTime d).seconds = d.unixTime := by
  have hmonth := h.month
  have hdiv : (d.month : ℤ) / 12 = 0 := by omega
  have hmod : ((d.month : ℤ) % 12).toNat = d.month := by omega
  unfold Tm.seconds Tm.ofDateTime DateTime.unixTime
  dsimp only
  rw [hdiv, hmod, show 1900 + (d.year - 1900) + 0 = d.year by omega]

/-- `timegm` leaves a date of the calendar alone. -/
theorem timegm_ofDateTime {d : DateTime} (h : d.Valid) :
    timegm (Tm.ofDateTime d) = (d.unixTime, Tm.ofDateTime d) := by
  obtain ⟨hvalid, hsec⟩ := ofUnixTime_spec d.unixTime
  rw [timegm, Tm.seconds_ofDateTime h, unixTime_injective hvalid h hsec]

end Calendar
