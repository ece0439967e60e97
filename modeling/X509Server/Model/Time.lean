import X509Server.Library.Calendar
import X509Server.Model.Element

/-!
# `parse_time`

The two macros of x509.c that read decimal digits, and the function around them.  `int`
arithmetic on the fields of `struct tm` is integer arithmetic here: no field leaves the
range of four decimal digits.
-/

set_option autoImplicit false

namespace X509Server

open Calendar

def utctimeSize : ℕ := 13
def generalizedtimeSize : ℕ := 15

/-- `sizeof(time_t)` of the 64-bit builds. -/
def sizeofTimeT : ℕ := 8

/-- `CONVERT_NUM(n, m)`: the advanced cursor and the new value of `n`.
CSRC: x509.c:480-489 -/
def convertNum (raw : Bytes) (idx : ℕ) (n m : ℤ) : Parse (ℕ × ℤ) := do
  let ch ← rawByte raw idx
  if ch < 48 ∨ ch > 57 then reject .invalidValidityTime
  else do
    let idx ← uadd idx 1
    .ok (idx, n + ((ch.toNat : ℤ) - 48) * m)

/-- `CONVERT_2DIGIT(n)`.
CSRC: x509.c:490-494 -/
def convert2Digit (raw : Bytes) (idx : ℕ) (n : ℤ) : Parse (ℕ × ℤ) := do
  let (idx, n) ← convertNum raw idx n 10
  convertNum raw idx n 1

/-- `tm_year` of a UTCTime: two digits, those below 50 in the next century.
CSRC: x509.c:504-509 -/
def parseUtcYear (raw : Bytes) (idx tsEnd : ℕ) : Parse (ℕ × ℕ × ℤ) := do
  let expected ← uadd idx utctimeSize
  if expected ≠ tsEnd then reject .invalidValidityTime
  else do
    let (idx, year) ← convert2Digit raw idx 0
    .ok (idx, tsEnd, year + (if year < 50 then 1 else 0) * 100)

/-- `tm_year` of a GeneralizedTime: the four digits as they stand.
CSRC: x509.c:511-523 -/
def parseGeneralizedYear (raw : Bytes) (idx parentEnd : ℕ) : Parse (ℕ × ℕ × ℤ) := do
  let (idx, tsEnd) ← parseDataElement raw derGeneralizedtime idx parentEnd
  let expected ← uadd idx generalizedtimeSize
  if expected ≠ tsEnd then reject .invalidValidityTime
  else do
    let (idx, year) ← convertNum raw idx 0 1000
    let (idx, year) ← convertNum raw idx year 100
    let (idx, year) ← convertNum raw idx year 10
    let (idx, year) ← convertNum raw idx year 1
    .ok (idx, tsEnd, year)

/-- The branch on the two forms: cursor, end of the element and `tm_year`.
CSRC: x509.c:503-524 -/
def parseYear (raw : Bytes) (idx parentEnd tsEnd : ℕ) : Parse (ℕ × ℕ × ℤ) :=
  if tsEnd ≠ idxNone then parseUtcYear raw idx tsEnd
  else parseGeneralizedYear raw idx parentEnd

/-- The comparison of the fields before and after `timegm`, and its result.
CSRC: x509.c:534-548 -/
def checkTime (tsEnd : ℕ) (preUtc : Tm) : Parse (ℕ × ℤ) :=
  if (timegm preUtc).1 < 0 ∨ preUtc.year ≠ (timegm preUtc).2.year ∨
      preUtc.mon ≠ (timegm preUtc).2.mon ∨ preUtc.mday ≠ (timegm preUtc).2.mday ∨
      preUtc.hour ≠ (timegm preUtc).2.hour ∨ preUtc.min ≠ (timegm preUtc).2.min ∨
      preUtc.sec ≠ (timegm preUtc).2.sec then
    reject .invalidValidityTime
  else .ok (tsEnd, (timegm preUtc).1)

/-- Everything behind the year.
CSRC: x509.c:525-548 -/
def parseMonthToSecond (raw : Bytes) (idx tsEnd : ℕ) (year : ℤ) : Parse (ℕ × ℤ) := do
  let (idx, mon) ← convert2Digit raw idx 0
  let (idx, mday) ← convert2Digit raw idx 0
  let (idx, hour) ← convert2Digit raw idx 0
  let (idx, min) ← convert2Digit raw idx 0
  let (idx, sec) ← convert2Digit raw idx 0
  let zone ← rawByte raw idx
  if zone ≠ 90 then reject .invalidValidityTime
  else checkTime tsEnd { year, mon := mon - 1, mday, hour, min, sec }

/-- `parse_time`: the cursor behind the element and the timestamp.
CSRC: x509.c:471-549 -/
def parseTime (raw : Bytes) (idx parentEnd : ℕ) : Parse (ℕ × ℤ) := do
  assertThat (decide (sizeofTimeT > 4))
  let (idx, tsEnd) ← parseOptionalData raw derUtctime idx parentEnd idxNone
  let (idx, tsEnd, year) ← parseYear raw idx parentEnd tsEnd
  parseMonthToSecond raw idx tsEnd year

end X509Server
