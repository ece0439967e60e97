import X509Server.Interface.Grammar

/-!
# The fields of a certificate

What `parse_x509` writes into `x509Fields`, as a function of the abstract certificate: the
index fields are sums of encoded lengths, the extension fields are the extensions' effects
in order.  The code never computes these sums; that it arrives at them is
`parseX509_safe` and `parseX509_encode`.
-/

set_option autoImplicit false

namespace X509Server

open Der

/-- The indices of an AlgorithmIdentifier that starts at `start`. -/
def AlgorithmIdentifier.at (a : AlgorithmIdentifier) (start : ℕ) : AlgId :=
  let oidStart := start + headerLength a.content + headerLength a.algorithm
  { idStart := start, idEnd := start + a.encode.length
    oidStart := oidStart, oidEnd := oidStart + a.algorithm.length }

@[simp] theorem AlgorithmIdentifier.at_idEnd (a : AlgorithmIdentifier) (start : ℕ) :
    (a.at start).idEnd = start + a.encode.length := rfl

/-! ## Extensions -/

/-- The value of a path length as it is shifted together. -/
def PathLength.shifted (p : PathLength) (init : UInt32) : UInt32 :=
  p.octets.foldl (fun v b => v <<< 8 ||| b.toUInt32) init

/-- The flags of a key usage: the second octet is shifted by one. -/
def KeyUsage.flags (k : KeyUsage) : UInt32 :=
  match k.second with
  | none => k.first.toUInt32
  | some second => k.first.toUInt32 ||| second.toUInt32 <<< 1

/-- The flag of a key purpose, 0 for purposes without one. -/
def purposeFlagOf (purpose : Bytes) : UInt32 :=
  if purpose.length = kpOid.length ∧
      purpose.take (kpOid.length - 1) = kpOid.take (kpOid.length - 1) then
    purposeFlag (purpose.getLastD 0)
  else 0

def purposeFlags (purposes : List Bytes) (init : UInt32) : UInt32 :=
  purposes.foldl (fun flags p => flags ||| purposeFlagOf p) init

/-- The effect of an extension whose value starts at `start`. -/
def Extension.apply (x : Extension) (start : ℕ) (fields : X509Fields) : X509Fields :=
  match x with
  | .basicConstraints .notCa => { fields with keyCertSign := false }
  | .basicConstraints (.ca none) =>
    { fields with keyCertSign := true, pathLenConstraint := maxUint32 }
  | .basicConstraints (.ca (some p)) =>
    { fields with
      keyCertSign := true, pathLenConstraint := p.shifted fields.pathLenConstraint }
  | .authorityKeyIdentifier body =>
    match body.keyIdentifier with
    | none => { fields with akidEnd := idxNone }
    | some id =>
      let akidStart := start + headerLength body.content + headerLength id
      { fields with akidStart := akidStart, akidEnd := akidStart + id.length }
  | .subjectKeyIdentifier body =>
    { fields with
      skidStart := start + headerLength body
      skidEnd := start + headerLength body + body.length }
  | .keyUsage _ body =>
    { fields with hasKeyUsage := true, keyUsageFlags := fields.keyUsageFlags ||| body.flags }
  | .extKeyUsage _ purposes =>
    { fields with
      hasExtKeyUsage := true, keyUsageFlags := purposeFlags purposes fields.keyUsageFlags }
  | .unrecognized _ _ _ => fields

/-- The distance of an extension's value from the extension's first octet. -/
def Extension.valueOffset (x : Extension) : ℕ :=
  headerLength x.content + (tlv derOid x.oid).length + (defaultFalse x.critical).length +
    headerLength x.value

/-- The effects of consecutive extensions, the first of which starts at `start`. -/
def applyExtensions : List Extension → ℕ → X509Fields → X509Fields
  | [], _, fields => fields
  | x :: xs, start, fields =>
    applyExtensions xs (start + x.encode.length) (x.apply (start + x.valueOffset) fields)

/-- The first octet of the first member, for an optional list at `start`. -/
def firstMember (o : Option ExtensionList) (start : ℕ) : ℕ :=
  start + headerLength (tlv derSequence (encodeExtensions (extensionMembers o))) +
    headerLength (encodeExtensions (extensionMembers o))

/-! ## Positions in a TBS certificate -/

namespace TbsCertificate

variable (t : TbsCertificate) (start : ℕ)

/-- The first octet of the serial number's content, for a TBS certificate at `start`. -/
def serialStart : ℕ :=
  start + headerLength t.content + encodeVersion.length + headerLength t.serialNumber

def serialEnd : ℕ := t.serialStart start + t.serialNumber.length

/-- The indices of the inner signature algorithm. -/
def sigId : AlgId := t.signature.at (t.serialEnd start)

/-- The first octet of subjectPublicKeyInfo. -/
def keyInfoStart : ℕ :=
  (t.sigId start).idEnd + t.issuer.encode.length + t.encodeValidity.length +
    t.subject.encode.length

/-- The indices of the key's algorithm. -/
def keyId : AlgId :=
  t.subjectPublicKeyInfo.algorithm.at
    (t.keyInfoStart start + headerLength t.subjectPublicKeyInfo.content)

def keyEnd : ℕ := t.keyInfoStart start + t.subjectPublicKeyInfo.encode.length

def keyStart : ℕ := t.keyEnd start - t.subjectPublicKeyInfo.subjectPublicKey.length

/-- The first octet of the optional extensions field. -/
def extensionsStart : ℕ :=
  t.keyEnd start + (optionalElement derImplicit1 t.issuerUniqueId).length +
    (optionalElement derImplicit2 t.subjectUniqueId).length

/-- The first octet of the first extension. -/
def firstExtension : ℕ := firstMember t.extensions (t.extensionsStart start)

/-- The fields before the extensions are applied, for a given signature range. -/
def baseFields (sigStart sigEnd : ℕ) : X509Fields where
  sigIdStart := (t.sigId start).idStart
  sigIdEnd := (t.sigId start).idEnd
  sigOidStart := (t.sigId start).oidStart
  sigOidEnd := (t.sigId start).oidEnd
  sigStart := sigStart
  sigEnd := sigEnd
  pubKeyIdStart := (t.keyId start).idStart
  pubKeyIdEnd := (t.keyId start).idEnd
  pubKeyOidStart := (t.keyId start).oidStart
  pubKeyOidEnd := (t.keyId start).oidEnd
  pubKeyStart := t.keyStart start
  pubKeyEnd := t.keyEnd start
  signedDataStart := start
  signedDataEnd := start + t.encode.length
  certSerialStart := t.serialStart start
  certSerialEnd := t.serialEnd start
  skidStart := idxNone
  skidEnd := idxNone
  akidStart := idxNone
  akidEnd := idxNone
  notBefore := t.notBefore.unixTime
  notAfter := t.notAfter.unixTime
  keyCertSign := false
  pathLenConstraint := 0
  hasKeyUsage := false
  hasExtKeyUsage := false
  keyUsageFlags := 0

def fields (sigStart sigEnd : ℕ) : X509Fields :=
  applyExtensions t.extensionList (t.firstExtension start)
    (t.baseFields start sigStart sigEnd)

end TbsCertificate

namespace Certificate

variable (c : Certificate)

/-- The first octet of the TBS certificate. -/
def tbsStart : ℕ := headerLength c.content

/-- The first octet of the signature. -/
def sigStart : ℕ := c.encode.length - c.signatureValue.length

/-- The fields of a certificate. -/
def fields : X509Fields :=
  c.tbsCertificate.fields c.tbsStart c.sigStart c.encode.length

end Certificate

/-! ## Order -/

/-- Where the index fields of a certificate of `rawSize` octets lie. -/
structure X509Fields.Ordered (f : X509Fields) (rawSize : ℕ) : Prop where
  serial : f.signedDataStart < f.certSerialStart ∧ f.certSerialStart ≤ f.certSerialEnd
  sigId : f.certSerialEnd ≤ f.sigIdStart ∧ f.sigIdStart < f.sigOidStart ∧
    f.sigOidStart ≤ f.sigOidEnd ∧ f.sigOidEnd ≤ f.sigIdEnd
  keyId : f.sigIdEnd < f.pubKeyIdStart ∧ f.pubKeyIdStart < f.pubKeyOidStart ∧
    f.pubKeyOidStart ≤ f.pubKeyOidEnd ∧ f.pubKeyOidEnd ≤ f.pubKeyIdEnd
  key : f.pubKeyIdEnd < f.pubKeyStart ∧ f.pubKeyStart ≤ f.pubKeyEnd ∧
    f.pubKeyEnd ≤ f.signedDataEnd
  skid : f.skidStart ≠ idxNone →
    f.pubKeyEnd ≤ f.skidStart ∧ f.skidStart ≤ f.skidEnd ∧ f.skidEnd ≤ f.signedDataEnd
  akid : f.akidStart ≠ idxNone →
    f.pubKeyEnd ≤ f.akidStart ∧ f.akidStart ≤ f.akidEnd ∧ f.akidEnd ≤ f.signedDataEnd
  signature : f.signedDataEnd + (f.sigIdEnd - f.sigIdStart) < f.sigStart ∧
    f.sigStart ≤ f.sigEnd ∧ f.sigEnd = rawSize

/-- Every index field that is always there is a range of the certificate's octets. -/
structure X509Fields.Within (f : X509Fields) (rawSize : ℕ) : Prop where
  signed : f.signedDataStart ≤ f.signedDataEnd ∧ f.signedDataEnd ≤ rawSize
  sigId : f.sigIdStart ≤ f.sigIdEnd ∧ f.sigIdEnd ≤ rawSize
  sigOid : f.sigOidStart ≤ f.sigOidEnd ∧ f.sigOidEnd ≤ rawSize
  keyId : f.pubKeyIdStart ≤ f.pubKeyIdEnd ∧ f.pubKeyIdEnd ≤ rawSize
  keyOid : f.pubKeyOidStart ≤ f.pubKeyOidEnd ∧ f.pubKeyOidEnd ≤ rawSize
  key : f.pubKeyStart ≤ f.pubKeyEnd ∧ f.pubKeyEnd ≤ rawSize
  signature : f.sigStart ≤ f.sigEnd ∧ f.sigEnd ≤ rawSize

/-! ## Relative positions -/

/-- An index as a distance from `base`; an absent index stays absent. -/
def relativeIdx (base i : ℕ) : ℕ := if i = idxNone then idxNone else i - base

/-- The fields with every index counted from `signedDataStart`, and without the signature's
range. -/
def X509Fields.relative (f : X509Fields) : X509Fields :=
  let base := f.signedDataStart
  { f with
    sigIdStart := f.sigIdStart - base, sigIdEnd := f.sigIdEnd - base
    sigOidStart := f.sigOidStart - base, sigOidEnd := f.sigOidEnd - base
    sigStart := 0, sigEnd := 0
    pubKeyIdStart := f.pubKeyIdStart - base, pubKeyIdEnd := f.pubKeyIdEnd - base
    pubKeyOidStart := f.pubKeyOidStart - base, pubKeyOidEnd := f.pubKeyOidEnd - base
    pubKeyStart := f.pubKeyStart - base, pubKeyEnd := f.pubKeyEnd - base
    signedDataStart := f.signedDataStart - base, signedDataEnd := f.signedDataEnd - base
    certSerialStart := f.certSerialStart - base, certSerialEnd := f.certSerialEnd - base
    skidStart := relativeIdx base f.skidStart, skidEnd := relativeIdx base f.skidEnd
    akidStart := relativeIdx base f.akidStart, akidEnd := relativeIdx base f.akidEnd }

end X509Server
