import Mathlib.Data.Int.Notation
import X509Server.Model.Element

/-!
# `x509Fields` and the extension parsers of x509.c

The handlers take the structure they write to and return it updated.  `extnEnd` is the end
of the extension's OCTET STRING, `idx` its first content octet.
-/

set_option autoImplicit false

namespace X509Server

/-- `x509Fields`: indices into the certificate and decoded values.
CSRC: x509.h:173-242 -/
structure X509Fields where
  sigIdStart : ℕ
  sigIdEnd : ℕ
  sigOidStart : ℕ
  sigOidEnd : ℕ
  sigStart : ℕ
  sigEnd : ℕ
  pubKeyIdStart : ℕ
  pubKeyIdEnd : ℕ
  pubKeyOidStart : ℕ
  pubKeyOidEnd : ℕ
  pubKeyStart : ℕ
  pubKeyEnd : ℕ
  signedDataStart : ℕ
  signedDataEnd : ℕ
  certSerialStart : ℕ
  certSerialEnd : ℕ
  skidStart : ℕ
  skidEnd : ℕ
  akidStart : ℕ
  akidEnd : ℕ
  notBefore : ℤ
  notAfter : ℤ
  keyCertSign : Bool
  pathLenConstraint : UInt32
  hasKeyUsage : Bool
  hasExtKeyUsage : Bool
  keyUsageFlags : UInt32
  deriving DecidableEq, Repr

/-! ## Usage flags (x509.h:48-151) -/

def keyUsageFlagSign : UInt32 := (1 : UInt32) <<< 7
def keyUsageFlagNonrep : UInt32 := (1 : UInt32) <<< 6
def keyUsageFlagKeyEnc : UInt32 := (1 : UInt32) <<< 5
def keyUsageFlagDataEnc : UInt32 := (1 : UInt32) <<< 4
def keyUsageFlagKeyAgreement : UInt32 := (1 : UInt32) <<< 3
def keyUsageFlagKeyCertSign : UInt32 := (1 : UInt32) <<< 2
def keyUsageFlagKeyCrlSign : UInt32 := (1 : UInt32) <<< 1
def keyUsageFlagKeyEncOnly : UInt32 := (1 : UInt32) <<< 0
def keyUsageFlagKeyDecOnly : UInt32 := (1 : UInt32) <<< 15
def keyUsageFlagAnyExtended : UInt32 := (1 : UInt32) <<< 16
def keyUsageFlagServerAuth : UInt32 := (1 : UInt32) <<< 17
def keyUsageFlagClientAuth : UInt32 := (1 : UInt32) <<< 18
def keyUsageFlagCodeSigning : UInt32 := (1 : UInt32) <<< 19
def keyUsageFlagEmailProtect : UInt32 := (1 : UInt32) <<< 20
def keyUsageFlagTimestamp : UInt32 := (1 : UInt32) <<< 21
def keyUsageFlagOcspSign : UInt32 := (1 : UInt32) <<< 22

def maxUint32 : UInt32 := 0xffffffff

/-- An optional element whose content is not used: the cursor moves behind it, if it is
there.  x509.c writes this out four times.
CSRC: x509.c:268-283, x509.c:285-297, x509.c:797-808, x509.c:810-820 -/
def skipOptionalData (raw : Bytes) (expectedIdentifier : UInt8) (idx parentEnd : ℕ) :
    Parse ℕ := do
  let (idx, contentEnd) ← parseOptionalData raw expectedIdentifier idx parentEnd idxNone
  if contentEnd ≠ idxNone then .ok contentEnd else .ok idx

/-! ## Basic constraints -/

/-- The loop that shifts the octets of pathLenConstraint into the field.
CSRC: x509.c:228-232 -/
def pathLenLoop (raw : Bytes) (pathEnd : ℕ) : ℕ → ℕ → UInt32 → Parse UInt32
  | 0, _, _ => .error (.fault .outOfFuel)
  | fuel + 1, idx, pathLen =>
    if idx < pathEnd then do
      let octet ← rawByte raw idx
      let next ← uadd idx 1
      pathLenLoop raw pathEnd fuel next (pathLen <<< 8 ||| octet.toUInt32)
    else .ok pathLen

/-- The optional pathLenConstraint: the cursor behind it and the value of the field.
CSRC: x509.c:211-236 -/
def parsePathLen (raw : Bytes) (idx constraintEnd : ℕ) (pathLen : UInt32) :
    Parse (ℕ × UInt32) := do
  let (idx, pathEnd) ← parseOptionalData raw derInteger idx constraintEnd idxNone
  if pathEnd ≠ idxNone then
    if idx = pathEnd then reject .unexpectedEndOfData
    else do
      let first ← rawByte raw idx
      let size ← usub pathEnd idx
      if first &&& 0x80 > 0 ∨ size > 4 then reject .invalidInteger
      else do
        let pathLen ← pathLenLoop raw pathEnd (raw.length + 1) idx pathLen
        .ok (pathEnd, pathLen)
  else .ok (idx, maxUint32)

/-- `parse_basic_constraint`.
CSRC: x509.c:197-242 -/
def parseBasicConstraint (raw : Bytes) (idx extnEnd : ℕ) (fields : X509Fields) :
    Parse X509Fields := do
  let (idx, constraintEnd) ← parseDataElement raw derSequence idx extnEnd
  let (idx, keyCertSign) ← parseDefaultBool raw idx constraintEnd
  let (idx, pathLen) ←
    match keyCertSign with
    | true => parsePathLen raw idx constraintEnd fields.pathLenConstraint
    | false => .ok (idx, fields.pathLenConstraint)
  if idx ≠ extnEnd then reject .trailingData
  else .ok { fields with keyCertSign := keyCertSign, pathLenConstraint := pathLen }

/-! ## Key identifiers -/

/-- `parse_akid`.
CSRC: x509.c:248-304 -/
def parseAkid (raw : Bytes) (idx extnEnd : ℕ) (fields : X509Fields) : Parse X509Fields := do
  let (idx, akidSeqEnd) ← parseDataElement raw derSequence idx extnEnd
  if akidSeqEnd ≠ extnEnd then reject .trailingData
  else do
    let (idx, akidEnd) ← parseOptionalData raw derImplicit0 idx akidSeqEnd idxNone
    let akidStart := if akidEnd ≠ idxNone then idx else fields.akidStart
    let idx := if akidEnd ≠ idxNone then akidEnd else idx
    let idx ← skipOptionalData raw (derImplicit1 ||| derConstructed) idx akidSeqEnd
    let idx ← skipOptionalData raw derImplicit2 idx akidSeqEnd
    if idx ≠ extnEnd then reject .trailingData
    else .ok { fields with akidStart := akidStart, akidEnd := akidEnd }

/-- `parse_skid`.
CSRC: x509.c:307-319 -/
def parseSkid (raw : Bytes) (idx extnEnd : ℕ) (fields : X509Fields) : Parse X509Fields := do
  let (idx, skidEnd) ← parseDataElement raw derOctetString idx extnEnd
  if skidEnd ≠ extnEnd then reject .trailingData
  else .ok { fields with skidStart := idx, skidEnd := skidEnd }

/-! ## Key usage -/

/-- `parse_key_usage`: the second value octet is shifted by one.
CSRC: x509.c:334-369 -/
def parseKeyUsage (raw : Bytes) (idx extnEnd : ℕ) (fields : X509Fields) :
    Parse X509Fields := do
  let (idx, usageEnd) ← parseDataElement raw derBitstring idx extnEnd
  let size ← usub usageEnd idx
  if size ≤ 1 then reject .unexpectedEndOfData
  else if usageEnd ≠ extnEnd ∨ size > 3 then reject .trailingData
  else do
    let unused ← rawByte raw idx
    if unused ≥ 8 then reject .invalidBitstring
    else do
      let lastSetBit : UInt8 := 0x80 >>> (7 - unused)
      let unusedBits : UInt8 := lastSetBit - 1
      let lastIdx ← usub usageEnd 1
      let last ← rawByte raw lastIdx
      if last &&& lastSetBit = 0 ∨ last &&& unusedBits > 0 then reject .invalidBitstring
      else do
        let firstIdx ← uadd idx 1
        let first ← rawByte raw firstIdx
        let flags := fields.keyUsageFlags ||| first.toUInt32
        let secondIdx ← uadd idx 2
        if secondIdx < usageEnd then do
          let second ← rawByte raw secondIdx
          .ok { fields with
            hasKeyUsage := true, keyUsageFlags := flags ||| second.toUInt32 <<< 1 }
        else .ok { fields with hasKeyUsage := true, keyUsageFlags := flags }

/-! ## Extended key usage -/

/-- `KP_OID`: the last octet is a placeholder. -/
def kpOid : Bytes := [0x2b, 0x06, 0x01, 0x05, 0x05, 0x07, 0x03, 0x00]

/-- The flag of the last octet of a key purpose below `KP_OID`'s prefix.
CSRC: x509.c:399-424 -/
def purposeFlag (last : UInt8) : UInt32 :=
  if last = 0x00 then keyUsageFlagAnyExtended
  else if last = 0x01 then keyUsageFlagServerAuth
  else if last = 0x02 then keyUsageFlagClientAuth
  else if last = 0x03 then keyUsageFlagCodeSigning
  else if last = 0x04 then keyUsageFlagEmailProtect
  else if last = 0x08 then keyUsageFlagTimestamp
  else if last = 0x09 then keyUsageFlagOcspSign
  else 0

/-- The flags after one key purpose `[idx, purposeEnd)`.
CSRC: x509.c:396-425 -/
def parsePurpose (raw : Bytes) (idx purposeEnd : ℕ) (flags : UInt32) : Parse UInt32 := do
  let size ← usub purposeEnd idx
  if size ≠ kpOid.length then .ok flags
  else do
    let start ← rawRange raw idx (kpOid.length - 1)
    if start ≠ kpOid.take (kpOid.length - 1) then .ok flags
    else do
      let lastIdx ← usub purposeEnd 1
      let last ← rawByte raw lastIdx
      .ok (flags ||| purposeFlag last)

/-- The loop over the key purposes.
CSRC: x509.c:388-428 -/
def extKeyUsageLoop (raw : Bytes) (usageEnd : ℕ) : ℕ → ℕ → UInt32 → Parse (ℕ × UInt32)
  | 0, _, _ => .error (.fault .outOfFuel)
  | fuel + 1, idx, flags =>
    if idx < usageEnd then do
      let (idx, purposeEnd) ← parseDataElement raw derOid idx usageEnd
      let flags ← parsePurpose raw idx purposeEnd flags
      extKeyUsageLoop raw usageEnd fuel purposeEnd flags
    else .ok (idx, flags)

/-- `parse_ext_key_usage`.
CSRC: x509.c:374-432 -/
def parseExtKeyUsage (raw : Bytes) (idx extnEnd : ℕ) (fields : X509Fields) :
    Parse X509Fields := do
  let (idx, usageEnd) ← parseDataElement raw derSequence idx extnEnd
  if usageEnd ≠ extnEnd then reject .trailingData
  else do
    let (idx, flags) ←
      extKeyUsageLoop raw usageEnd (raw.length + 1) idx fields.keyUsageFlags
    assertThat (decide (idx = usageEnd))
    .ok { fields with hasExtKeyUsage := true, keyUsageFlags := flags }

/-! ## The table of supported extensions -/

/-- `SupportedExtn`.
CSRC: x509.c:8-17 -/
structure SupportedExtn where
  oid : Bytes
  criticality : ℕ
  parseExtn : Bytes → ℕ → ℕ → X509Fields → Parse X509Fields

def basicConstraintOid : Bytes := [0x55, 0x1d, 0x13]
def akidOid : Bytes := [0x55, 0x1d, 0x23]
def skidOid : Bytes := [0x55, 0x1d, 0x0e]
def keyUsageOid : Bytes := [0x55, 0x1d, 0x0f]
def extKeyUsageOid : Bytes := [0x55, 0x1d, 0x25]

/-- `supported_etxns`.
CSRC: x509.c:442-450 -/
def supportedExtns : List SupportedExtn :=
  [⟨basicConstraintOid, 0b11, parseBasicConstraint⟩,
   ⟨akidOid, 0b10, parseAkid⟩,
   ⟨skidOid, 0b10, parseSkid⟩,
   ⟨keyUsageOid, 0b00, parseKeyUsage⟩,
   ⟨extKeyUsageOid, 0b00, parseExtKeyUsage⟩]

/-- `assign_default_extensions`.
CSRC: x509.c:455-465 -/
def assignDefaultExtensions (fields : X509Fields) : X509Fields :=
  { fields with
    skidStart := idxNone, skidEnd := idxNone, akidStart := idxNone, akidEnd := idxNone
    keyCertSign := false, pathLenConstraint := 0
    hasKeyUsage := false, hasExtKeyUsage := false, keyUsageFlags := 0 }

end X509Server
