import X509Server.Interface.Grammar

/-!
# The dates a Time denotes

RFC 5280 as x509.c quotes it: a UTCTime is `YYMMDDHHMMSSZ` with the years 1950 to 2049, a
GeneralizedTime is `YYYYMMDDHHMMSSZ` with the year as it stands.  The relation is given by
rendering a date, so it does not depend on how the parser reads digits.
-/

set_option autoImplicit false

namespace X509Server

open Calendar

/-- A number below 100 as two decimal digits. -/
def decimal2 (v : ℤ) : Bytes :=
  [UInt8.ofNat (48 + v.toNat / 10), UInt8.ofNat (48 + v.toNat % 10)]

/-- `MMDDHHMMSSZ`. -/
def renderClock (d : DateTime) : Bytes :=
  decimal2 (d.month + 1) ++ (decimal2 d.day ++ (decimal2 d.hour ++
    (decimal2 d.minute ++ (decimal2 d.second ++ [90]))))

/-- The contents of a Time for a date. -/
def renderTime : TimeForm → DateTime → Bytes
  | .utcTime, d => decimal2 (d.year % 100) ++ renderClock d
  | .generalizedTime, d => decimal2 (d.year / 100) ++ (decimal2 (d.year % 100) ++ renderClock d)

/-- The years a form can express. -/
def TimeForm.years : TimeForm → ℤ → Prop
  | .utcTime, y => 1950 ≤ y ∧ y < 2050
  | .generalizedTime, y => 0 ≤ y ∧ y < 10000

/-- The contents denote the date. -/
structure Denotes (form : TimeForm) (contents : Bytes) (d : DateTime) : Prop where
  valid : d.Valid
  years : form.years d.year
  contents_eq : contents = renderTime form d

/-- The same day and time of day, a number of years later. -/
def laterBy (d : DateTime) (years : ℤ) : DateTime := { d with year := d.year + years }

/-- What `parse_time` takes the contents of a GeneralizedTime for: the year it shows is counted
from 1900. -/
structure TakenFor (contents : Bytes) (d : DateTime) : Prop where
  valid : d.Valid
  years : 1970 ≤ d.year ∧ d.year < 11900
  contents_eq : contents = renderTime .generalizedTime (laterBy d (-1900))

def Time.Denotes (t : Time) (d : DateTime) : Prop := X509Server.Denotes t.form t.contents d

/-- The date that the server goes by: the one a UTCTime denotes, and for a GeneralizedTime the
one it is taken for. -/
def Time.ReadAs (t : Time) (d : DateTime) : Prop :=
  match t.form with
  | .utcTime => t.Denotes d
  | .generalizedTime => TakenFor t.contents d

end X509Server
