import X509Server.Model.Machine

/-!
# The element parsers of x509.c

`parse_any` and what is built on it.  The in/out cursor `*idx` is an argument and a part
of the result; a result other than `PARSE_OK` leaves the cursor and the end undefined in
C, and carries neither here.  The one caller that looks at its cursor after a failure is
`rsa_extract`, so `parse_null` returns the cursor next to its code.
-/

set_option autoImplicit false

namespace X509Server

/-- The codes of `ParseCode` other than `PARSE_OK`.
CSRC: x509.h:244-262 -/
inductive ParseCode where
  | unexpectedEndOfData
  | unexpectedIdentifier
  | invalidLengthForm
  | trailingData
  | invalidVersion
  | invalidBoolean
  | invalidInteger
  | invalidBitstring
  | invalidValidityTime
  | mismatchedSigId
  | exceedsMaxExtns
  | duplicateExtns
  | unrecognizedCriticalExtn
  | invalidCriticality
  deriving DecidableEq, Repr

/-- A parser: `PARSE_OK` with a value, another `ParseCode`, or a fault. -/
abbrev Parse (α : Type) := Guarded ParseCode α

/-- `return code`. -/
abbrev reject {α : Type} (c : ParseCode) : Parse α := .error (.code c)

/-! ## Constants (x509.h:5-30) -/

def idxNone : ℕ := 0
def maxExtn : ℕ := 64

def derConstructed : UInt8 := 0b00100000
def derBoolean : UInt8 := 1
def derInteger : UInt8 := 2
def derBitstring : UInt8 := 3
def derOctetString : UInt8 := 4
def derOid : UInt8 := 6
def derSequence : UInt8 := derConstructed ||| 16
def derSet : UInt8 := derConstructed ||| 17
def derUtctime : UInt8 := 23
def derGeneralizedtime : UInt8 := 24

def derExplicit0 : UInt8 := 0b10100000
def derImplicit0 : UInt8 := 0b10000000
def derImplicit1 : UInt8 := 0b10000001
def derImplicit2 : UInt8 := 0b10000010
def derExplicit3 : UInt8 := 0b10100011

def derLengthFormMask : UInt8 := 0b10000000
def derLengthIndefinite : UInt8 := 0b10000000
def derLengthReserved : UInt8 := 0b11111111

def x509AcceptedVersion : UInt8 := 2

/-! ## Parsers -/

/-- What `parse_any` leaves behind: the cursor at the content, the content's end and the
identifier. -/
structure Element where
  idx : ℕ
  contentEnd : ℕ
  identifier : UInt8
  deriving DecidableEq, Repr

/-- The loop over the octets of a long-form length.
CSRC: x509.c:60-63 -/
def lengthLoop (raw : Bytes) : ℕ → ℕ → ℕ → Parse (ℕ × ℕ)
  | 0, idx, length => .ok (idx, length)
  | n + 1, idx, length => do
    let octet ← rawByte raw idx
    let idx ← uadd idx 1
    lengthLoop raw n idx ((length <<< 8 ||| octet.toNat) % 2 ^ 64)

/-- The long-form branch of `parse_any`, for the announced number of octets.
CSRC: x509.c:48-68 -/
def parseLongLength (raw : Bytes) (idx parentEnd lengthOctets : ℕ) : Parse (ℕ × ℕ) := do
  let lengthEnd ← uadd idx lengthOctets
  if lengthEnd > parentEnd then reject .unexpectedEndOfData
  else do
    let first ← rawByte raw idx
    if first = 0 then reject .invalidLengthForm
    else if lengthOctets > 8 then reject .unexpectedEndOfData
    else do
      let decoded ← lengthLoop raw lengthOctets idx 0
      if decoded.2 ≤ 127 then reject .invalidLengthForm
      else .ok decoded

/-- The two length forms of `parse_any`: the cursor at the content and the length.
CSRC: x509.c:46-74 -/
def parseLength (raw : Bytes) (idx parentEnd : ℕ) (lengthByte : UInt8) : Parse (ℕ × ℕ) :=
  if lengthByte &&& derLengthFormMask > 0 then
    parseLongLength raw idx parentEnd (lengthByte &&& ~~~derLengthFormMask).toNat
  else .ok (idx, lengthByte.toNat)

/-- `parse_any`.
CSRC: x509.c:24-84 -/
def parseAny (raw : Bytes) (idx parentEnd : ℕ) : Parse Element :=
  if idx ≥ parentEnd then reject .unexpectedEndOfData
  else do
    let identifier ← rawByte raw idx
    let idx ← uadd idx 1
    if idx ≥ parentEnd then reject .unexpectedEndOfData
    else do
      let lengthByte ← rawByte raw idx
      if lengthByte = derLengthIndefinite ∨ lengthByte = derLengthReserved then
        reject .invalidLengthForm
      else do
        let idx ← uadd idx 1
        let (idx, length) ← parseLength raw idx parentEnd lengthByte
        let room ← usub parentEnd idx
        if length > room then reject .unexpectedEndOfData
        else do
          let contentEnd ← uadd idx length
          .ok ⟨idx, contentEnd, identifier⟩

/-- `parse_data_element`: the cursor at the content and the content's end.
CSRC: x509.c:86-97 -/
def parseDataElement (raw : Bytes) (expectedIdentifier : UInt8) (idx parentEnd : ℕ) :
    Parse (ℕ × ℕ) := do
  let element ← parseAny raw idx parentEnd
  if element.identifier ≠ expectedIdentifier then reject .unexpectedIdentifier
  else .ok (element.idx, element.contentEnd)

/-- `parse_null`: the code (`none` for `PARSE_OK`) and the cursor, which moves only on
success.
CSRC: x509.c:99-111 -/
def parseNull {ε : Type} (raw : Bytes) (idx parentEnd : ℕ) :
    Guarded ε (Option ParseCode × ℕ) := do
  let nullEnd ← uadd idx 2
  if nullEnd > parentEnd then .ok (some .unexpectedEndOfData, idx)
  else do
    let identifier ← rawByte raw idx
    if identifier ≠ 0x05 then .ok (some .unexpectedIdentifier, idx)
    else do
      let second ← uadd idx 1
      let length ← rawByte raw second
      if length ≠ 0x00 then .ok (some .invalidLengthForm, idx)
      else .ok (none, nullEnd)

/-- `parse_optional_data`: `contentEnd` is the in/out `*ret_content_end`, put back with
the cursor when no such element could be read.
CSRC: x509.c:121-138 -/
def parseOptionalData (raw : Bytes) (expectedIdentifier : UInt8)
    (idx parentEnd contentEnd : ℕ) : Parse (ℕ × ℕ) :=
  match parseDataElement raw expectedIdentifier idx parentEnd with
  | .error (.code .unexpectedEndOfData) => .ok (idx, contentEnd)
  | .error (.code .unexpectedIdentifier) => .ok (idx, contentEnd)
  | result => result

/-- `parse_default_bool`: the cursor and the decoded value.
CSRC: x509.c:145-165 -/
def parseDefaultBool (raw : Bytes) (idx parentEnd : ℕ) : Parse (ℕ × Bool) := do
  let (idx, boolEnd) ← parseOptionalData raw derBoolean idx parentEnd idxNone
  if boolEnd ≠ idxNone then do
    let next ← uadd idx 1
    if boolEnd ≠ next then reject .invalidBoolean
    else do
      let value ← rawByte raw idx
      if value ≠ 0xff then reject .invalidBoolean
      else .ok (boolEnd, true)
  else .ok (idx, false)

/-- `parse_bitstring_no_unused`: the cursor behind the unused-bits octet and the content's
end.
CSRC: x509.c:175-191 -/
def parseBitstringNoUnused (raw : Bytes) (idx parentEnd : ℕ) : Parse (ℕ × ℕ) := do
  let (idx, contentEnd) ← parseDataElement raw derBitstring idx parentEnd
  if idx ≥ contentEnd then reject .unexpectedEndOfData
  else do
    let unused ← rawByte raw idx
    if unused ≠ 0 then reject .invalidBitstring
    else do
      let idx ← uadd idx 1
      .ok (idx, contentEnd)

end X509Server
