import X509Server.Model.Extension
import X509Server.Model.Time

/-!
# `parse_x509`

The certificate parser, cut at the comments of the source that quote the grammar: one
definition for each component that has its own end.  Loops carry an iteration bound; it is
the size of the certificate plus one, which no run uses up, since every iteration consumes
at least one header.
-/

set_option autoImplicit false

namespace X509Server

open ByteWindow

/-- What `parse_alg_id` returns through its pointers, and the cursor behind the element. -/
structure AlgId where
  idStart : ℕ
  idEnd : ℕ
  oidStart : ℕ
  oidEnd : ℕ
  deriving DecidableEq, Repr

/-- `parse_alg_id`: the cursor ends at `idEnd`.
CSRC: x509.c:555-575 -/
def parseAlgId (raw : Bytes) (idx parentEnd : ℕ) : Parse AlgId := do
  let idStart := idx
  let (idx, idEnd) ← parseDataElement raw derSequence idx parentEnd
  let (idx, oidEnd) ← parseDataElement raw derOid idx idEnd
  .ok { idStart, idEnd, oidStart := idx, oidEnd }

/-- The inner loop of `parse_name`, which runs at least once since `attribute_end` starts
at 0.
CSRC: x509.c:610-641 -/
def attributeLoop (raw : Bytes) (relativeNameEnd : ℕ) : ℕ → ℕ → ℕ → Parse ℕ
  | 0, _, _ => .error (.fault .outOfFuel)
  | fuel + 1, idx, attributeEnd =>
    if attributeEnd < relativeNameEnd then do
      let (idx, attributeEnd) ← parseDataElement raw derSequence idx relativeNameEnd
      let (_, attributeTypeEnd) ← parseDataElement raw derOid idx attributeEnd
      let value ← parseAny raw attributeTypeEnd attributeEnd
      if attributeEnd ≠ value.contentEnd then reject .trailingData
      else attributeLoop raw relativeNameEnd fuel value.contentEnd attributeEnd
    else .ok idx

/-- The outer loop of `parse_name`.
CSRC: x509.c:595-642 -/
def nameLoop (raw : Bytes) (nameEnd : ℕ) : ℕ → ℕ → Parse ℕ
  | 0, _ => .error (.fault .outOfFuel)
  | fuel + 1, idx =>
    if idx < nameEnd then do
      let (idx, relativeNameEnd) ← parseDataElement raw derSet idx nameEnd
      let idx ← attributeLoop raw relativeNameEnd (raw.length + 1) idx 0
      assertThat (decide (idx = relativeNameEnd))
      nameLoop raw nameEnd fuel idx
    else .ok idx

/-- `parse_name`.
CSRC: x509.c:586-646 -/
def parseName (raw : Bytes) (idx parentEnd : ℕ) : Parse ℕ := do
  let (idx, nameEnd) ← parseDataElement raw derSequence idx parentEnd
  let idx ← nameLoop raw nameEnd (raw.length + 1) idx
  assertThat (decide (idx = nameEnd))
  .ok idx

/-- The doubly wrapped version number: the cursor behind it.
CSRC: x509.c:692-712 -/
def parseVersion (raw : Bytes) (idx tbsCertEnd : ℕ) : Parse ℕ := do
  let (idx, explicitEnd) ← parseDataElement raw derExplicit0 idx tbsCertEnd
  let (idx, versionEnd) ← parseDataElement raw derInteger idx explicitEnd
  let size ← usub versionEnd idx
  if size ≠ 1 then reject .invalidVersion
  else do
    let version ← rawByte raw idx
    if version ≠ x509AcceptedVersion then reject .invalidVersion
    else if versionEnd ≠ explicitEnd then reject .trailingData
    else .ok versionEnd

/-- The two times of the validity: the cursor behind them.
CSRC: x509.c:736-759 -/
def parseValidity (raw : Bytes) (idx tbsCertEnd : ℕ) : Parse (ℕ × ℤ × ℤ) := do
  let (idx, validityEnd) ← parseDataElement raw derSequence idx tbsCertEnd
  let (idx, notBefore) ← parseTime raw idx validityEnd
  let (idx, notAfter) ← parseTime raw idx validityEnd
  if idx ≠ validityEnd then reject .trailingData
  else .ok (idx, notBefore, notAfter)

/-- subjectPublicKeyInfo: its algorithm and the range of the key.
CSRC: x509.c:767-794 -/
def parsePublicKeyInfo (raw : Bytes) (idx tbsCertEnd : ℕ) : Parse (AlgId × ℕ × ℕ) := do
  let (idx, publicKeyInfoEnd) ← parseDataElement raw derSequence idx tbsCertEnd
  let algId ← parseAlgId raw idx publicKeyInfoEnd
  let (pubKeyStart, pubKeyEnd) ← parseBitstringNoUnused raw algId.idEnd publicKeyInfoEnd
  if pubKeyEnd ≠ publicKeyInfoEnd then reject .trailingData
  else .ok (algId, pubKeyStart, pubKeyEnd)

/-! ## Extensions -/

/-- One extension up to its value: where its OID and its value lie, and whether it is
critical. -/
structure ExtnHeader where
  oidStart : ℕ
  oidEnd : ℕ
  critical : Bool
  valueStart : ℕ
  extnEnd : ℕ
  deriving DecidableEq, Repr

/-- CSRC: x509.c:852-888 -/
def parseExtnHeader (raw : Bytes) (idx extensionsEnd : ℕ) : Parse ExtnHeader := do
  let (idx, extensionEnd) ← parseDataElement raw derSequence idx extensionsEnd
  let (oidStart, oidEnd) ← parseDataElement raw derOid idx extensionEnd
  let (idx, critical) ← parseDefaultBool raw oidEnd extensionEnd
  let (valueStart, extnEnd) ← parseDataElement raw derOctetString idx extensionEnd
  if extnEnd ≠ extensionEnd then reject .trailingData
  else .ok { oidStart, oidEnd, critical, valueStart, extnEnd }

/-- The scan of the OIDs seen so far, kept as start and size.
CSRC: x509.c:897-901 -/
def checkDuplicate (raw : Bytes) (oidStart oidSize : ℕ) : List (ℕ × ℕ) → Parse Unit
  | [] => .ok ()
  | (start, size) :: seen => do
    let same ← memeq raw start size oidStart oidSize
    if same then reject .duplicateExtns
    else checkDuplicate raw oidStart oidSize seen

/-- `extn_oids[extn_oid_list_size] = …`, a table of `MAX_EXTN` entries.
CSRC: x509.c:902-904 -/
def recordOid (seen : List (ℕ × ℕ)) (oidStart oidSize : ℕ) : Parse (List (ℕ × ℕ)) :=
  if seen.length < maxExtn then .ok (seen ++ [(oidStart, oidSize)])
  else .error (.fault .tableOverflow)

/-- The search of the table for the extension's OID; an extension found in no entry must
not be critical.
CSRC: x509.c:906-927 -/
def dispatchExtn (raw : Bytes) (header : ExtnHeader) (oidSize : ℕ) (fields : X509Fields) :
    List SupportedExtn → Parse X509Fields
  | [] => if header.critical then reject .unrecognizedCriticalExtn else .ok fields
  | extn :: extns => do
    let found ← memeqConst extn.oid raw header.oidStart oidSize
    if found then
      if extn.criticality &&& 0b10 > 0 ∧ extn.criticality &&& 0b01 ≠ header.critical.toNat then
        reject .invalidCriticality
      else extn.parseExtn raw header.valueStart header.extnEnd fields
    else dispatchExtn raw header oidSize fields extns

/-- The loop over the extensions.
CSRC: x509.c:844-929 -/
def extensionLoop (raw : Bytes) (extensionsEnd : ℕ) :
    ℕ → ℕ → List (ℕ × ℕ) → X509Fields → Parse (ℕ × X509Fields)
  | 0, _, _, _ => .error (.fault .outOfFuel)
  | fuel + 1, idx, seen, fields =>
    if idx < extensionsEnd then
      if seen.length ≥ maxExtn then reject .exceedsMaxExtns
      else do
        let header ← parseExtnHeader raw idx extensionsEnd
        let oidSize ← usub header.oidEnd header.oidStart
        checkDuplicate raw header.oidStart oidSize seen
        let seen ← recordOid seen header.oidStart oidSize
        let fields ← dispatchExtn raw header oidSize fields supportedExtns
        extensionLoop raw extensionsEnd fuel header.extnEnd seen fields
    else .ok (idx, fields)

/-- extensions [3], if present: the cursor behind them and the fields.
CSRC: x509.c:822-930 -/
def parseExtensions (raw : Bytes) (idx tbsCertEnd : ℕ) (fields : X509Fields) :
    Parse (ℕ × X509Fields) := do
  let (idx, explicit3End) ← parseOptionalData raw derExplicit3 idx tbsCertEnd idxNone
  let fields := assignDefaultExtensions fields
  if explicit3End ≠ idxNone then do
    let (idx, extensionsEnd) ← parseDataElement raw derSequence idx explicit3End
    if extensionsEnd ≠ explicit3End then reject .trailingData
    else do
      let (idx, fields) ← extensionLoop raw extensionsEnd (raw.length + 1) idx [] fields
      assertThat (decide (idx = extensionsEnd))
      .ok (idx, fields)
  else .ok (idx, fields)

/-! ## The certificate -/

/-- tbsCertificate up to its extensions: the cursor in front of them, the end of
tbsCertificate and the fields.
CSRC: x509.c:681-820 -/
def parseTbsHead (raw : Bytes) (idx certEnd : ℕ) (fields : X509Fields) :
    Parse (ℕ × ℕ × X509Fields) := do
  let signedDataStart := idx
  let (idx, tbsCertEnd) ← parseDataElement raw derSequence idx certEnd
  let idx ← parseVersion raw idx tbsCertEnd
  let (certSerialStart, certSerialEnd) ← parseDataElement raw derInteger idx tbsCertEnd
  let sigId ← parseAlgId raw certSerialEnd tbsCertEnd
  let idx ← parseName raw sigId.idEnd tbsCertEnd
  let (idx, notBefore, notAfter) ← parseValidity raw idx tbsCertEnd
  let idx ← parseName raw idx tbsCertEnd
  let (pubKeyId, pubKeyStart, pubKeyEnd) ← parsePublicKeyInfo raw idx tbsCertEnd
  let idx ← skipOptionalData raw derImplicit1 pubKeyEnd tbsCertEnd
  let idx ← skipOptionalData raw derImplicit2 idx tbsCertEnd
  .ok (idx, tbsCertEnd, { fields with
    signedDataStart, signedDataEnd := tbsCertEnd, certSerialStart, certSerialEnd
    sigIdStart := sigId.idStart, sigIdEnd := sigId.idEnd
    sigOidStart := sigId.oidStart, sigOidEnd := sigId.oidEnd, notBefore, notAfter
    pubKeyIdStart := pubKeyId.idStart, pubKeyIdEnd := pubKeyId.idEnd
    pubKeyOidStart := pubKeyId.oidStart, pubKeyOidEnd := pubKeyId.oidEnd
    pubKeyStart, pubKeyEnd })

/-- tbsCertificate: the cursor behind it and the fields.
CSRC: x509.c:681-935 -/
def parseTbsCertificate (raw : Bytes) (idx certEnd : ℕ) (fields : X509Fields) :
    Parse (ℕ × X509Fields) := do
  let (idx, tbsCertEnd, fields) ← parseTbsHead raw idx certEnd fields
  let (idx, fields) ← parseExtensions raw idx tbsCertEnd fields
  if idx ≠ tbsCertEnd then reject .trailingData
  else .ok (idx, fields)

/-- signatureAlgorithm and signatureValue.
CSRC: x509.c:937-960 -/
def parseSignature (raw : Bytes) (idx certEnd : ℕ) (fields : X509Fields) :
    Parse X509Fields := do
  let sigIdSize ← usub fields.sigIdEnd fields.sigIdStart
  let idEnd ← uadd idx sigIdSize
  if idEnd ≥ certEnd then reject .unexpectedEndOfData
  else do
    let inner ← rawRange raw fields.sigIdStart sigIdSize
    let outer ← rawRange raw idx sigIdSize
    if inner ≠ outer then reject .mismatchedSigId
    else do
      let (sigStart, sigEnd) ← parseBitstringNoUnused raw idEnd certEnd
      if sigEnd ≠ certEnd then reject .trailingData
      else .ok { fields with sigStart, sigEnd }

/-- `parse_x509`, with the contents `*ret_fields` has when it is called.
CSRC: x509.c:648-961 -/
def parseX509 (raw : Bytes) (fields : X509Fields) : Parse X509Fields := do
  let (idx, certEnd) ← parseDataElement raw derSequence 0 raw.length
  if raw.length ≠ certEnd then reject .trailingData
  else do
    let (idx, fields) ← parseTbsCertificate raw idx certEnd fields
    parseSignature raw idx certEnd fields

end X509Server
