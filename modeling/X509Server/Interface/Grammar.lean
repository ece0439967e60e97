import X509Server.Library.Der
import X509Server.Model.Certificate

/-!
# The certificates the parser is for

The abstract syntax of the certificates `parse_x509` accepts, and their encoding.  The
rules that are not part of the shape are fields of the structures: a SET of a
RelativeDistinguishedName has a first member, a path length has one to four octets and no
sign bit, a key usage ends with its last set bit, an extension list has at most 64 members
with distinct OIDs, an unrecognised extension is neither critical nor one of the five
supported ones.  So every value of `Certificate` is a certificate the parser should
accept, and `Certificate.encode` is its one encoding.
-/

set_option autoImplicit false

namespace X509Server

open Der

/-! ## Elements with a default -/

/-- An optional element. -/
def optionalElement (identifier : UInt8) : Option Bytes → Bytes
  | none => []
  | some content => tlv identifier content

/-- `BOOLEAN DEFAULT FALSE`: the default is not written. -/
def defaultFalse (b : Bool) : Bytes :=
  optionalElement derBoolean (if b then some [0xff] else none)

/-- A BIT STRING of whole octets. -/
def encodeBitstring (bits : Bytes) : Bytes := tlv derBitstring (0 :: bits)

/-! ## The components of a TBS certificate -/

/-- AlgorithmIdentifier; the parameters are whatever follows the OID. -/
structure AlgorithmIdentifier where
  algorithm : Bytes
  parameters : Bytes
  deriving DecidableEq, Repr

def AlgorithmIdentifier.content (a : AlgorithmIdentifier) : Bytes :=
  tlv derOid a.algorithm ++ a.parameters

def AlgorithmIdentifier.encode (a : AlgorithmIdentifier) : Bytes := tlv derSequence a.content

/-- AttributeTypeAndValue; the value is any one element. -/
structure AttributeTypeAndValue where
  type : Bytes
  valueIdentifier : UInt8
  value : Bytes
  deriving DecidableEq, Repr

def AttributeTypeAndValue.encode (a : AttributeTypeAndValue) : Bytes :=
  tlv derSequence (tlv derOid a.type ++ tlv a.valueIdentifier a.value)

/-- `SET SIZE (1..MAX) OF AttributeTypeAndValue`. -/
structure RelativeDistinguishedName where
  first : AttributeTypeAndValue
  others : List AttributeTypeAndValue
  deriving DecidableEq, Repr

def RelativeDistinguishedName.attributes (r : RelativeDistinguishedName) :
    List AttributeTypeAndValue := r.first :: r.others

def encodeAttributes (as : List AttributeTypeAndValue) : Bytes :=
  as.flatMap AttributeTypeAndValue.encode

def RelativeDistinguishedName.encode (r : RelativeDistinguishedName) : Bytes :=
  tlv derSet (encodeAttributes r.attributes)

/-- RDNSequence, possibly empty. -/
structure Name where
  rdns : List RelativeDistinguishedName
  deriving DecidableEq, Repr

def encodeRdns (rs : List RelativeDistinguishedName) : Bytes :=
  rs.flatMap RelativeDistinguishedName.encode

def Name.encode (n : Name) : Bytes := tlv derSequence (encodeRdns n.rdns)

/-- The alternatives of Time. -/
inductive TimeForm where
  | utcTime
  | generalizedTime
  deriving DecidableEq, Repr

def TimeForm.identifier : TimeForm → UInt8
  | .utcTime => derUtctime
  | .generalizedTime => derGeneralizedtime

/-- A Time that `parse_time` accepts, with the timestamp it returns. -/
structure Time where
  form : TimeForm
  contents : Bytes
  unixTime : ℤ
  accepted : parseTime (tlv form.identifier contents) 0 (tlv form.identifier contents).length =
    .ok ((tlv form.identifier contents).length, unixTime)

def Time.encode (t : Time) : Bytes := tlv t.form.identifier t.contents

/-- SubjectPublicKeyInfo. -/
structure SubjectPublicKeyInfo where
  algorithm : AlgorithmIdentifier
  subjectPublicKey : Bytes
  deriving DecidableEq, Repr

def SubjectPublicKeyInfo.content (k : SubjectPublicKeyInfo) : Bytes :=
  k.algorithm.encode ++ encodeBitstring k.subjectPublicKey

def SubjectPublicKeyInfo.encode (k : SubjectPublicKeyInfo) : Bytes :=
  tlv derSequence k.content

/-! ## Extensions -/

/-- The content of a pathLenConstraint: a non-negative INTEGER of one to four octets. -/
structure PathLength where
  octets : Bytes
  pos : 1 ≤ octets.length
  le_four : octets.length ≤ 4
  nonneg : ∀ b ∈ octets.head?, b.toNat < 128

/-- BasicConstraints: a path length goes only with a certification authority. -/
inductive BasicConstraints where
  | notCa
  | ca (pathLen : Option PathLength)

def BasicConstraints.encode : BasicConstraints → Bytes
  | .notCa => tlv derSequence []
  | .ca pathLen => tlv derSequence
      (defaultFalse true ++ optionalElement derInteger (pathLen.map PathLength.octets))

/-- AuthorityKeyIdentifier; the names and the serial number are not looked into. -/
structure AuthorityKeyIdentifier where
  keyIdentifier : Option Bytes
  authorityCertIssuer : Option Bytes
  authorityCertSerialNumber : Option Bytes
  deriving DecidableEq, Repr

def AuthorityKeyIdentifier.content (a : AuthorityKeyIdentifier) : Bytes :=
  optionalElement derImplicit0 a.keyIdentifier ++
    (optionalElement (derImplicit1 ||| derConstructed) a.authorityCertIssuer ++
      optionalElement derImplicit2 a.authorityCertSerialNumber)

def AuthorityKeyIdentifier.encode (a : AuthorityKeyIdentifier) : Bytes :=
  tlv derSequence a.content

/-- KeyUsage: a named bit list of one or two octets whose last used bit is set. -/
structure KeyUsage where
  unused : UInt8
  first : UInt8
  second : Option UInt8
  unused_lt : unused.toNat < 8
  last_bit : (second.getD first).toNat % 2 ^ (unused.toNat + 1) = 2 ^ unused.toNat

def KeyUsage.octets (k : KeyUsage) : Bytes := k.first :: k.second.toList

def KeyUsage.encode (k : KeyUsage) : Bytes := tlv derBitstring (k.unused :: k.octets)

/-- The named bit `bit` is asserted; bit 0 is the most significant bit of the first
octet. -/
def KeyUsage.asserts (k : KeyUsage) (bit : ℕ) : Bool :=
  (k.octets.getD (bit / 8) 0).toNat.testBit (7 - bit % 8)

/-- The OIDs with an entry in the table of supported extensions. -/
def supportedOids : List Bytes :=
  [basicConstraintOid, akidOid, skidOid, keyUsageOid, extKeyUsageOid]

/-- An extension, with the criticality the table demands. -/
inductive Extension where
  | basicConstraints (body : BasicConstraints)
  | authorityKeyIdentifier (body : AuthorityKeyIdentifier)
  | subjectKeyIdentifier (body : Bytes)
  | keyUsage (critical : Bool) (body : KeyUsage)
  | extKeyUsage (critical : Bool) (purposes : List Bytes)
  | unrecognized (oid value : Bytes) (unsupported : oid ∉ supportedOids)

namespace Extension

def oid : Extension → Bytes
  | .basicConstraints _ => basicConstraintOid
  | .authorityKeyIdentifier _ => akidOid
  | .subjectKeyIdentifier _ => skidOid
  | .keyUsage _ _ => keyUsageOid
  | .extKeyUsage _ _ => extKeyUsageOid
  | .unrecognized oid _ _ => oid

def critical : Extension → Bool
  | .basicConstraints _ => true
  | .authorityKeyIdentifier _ => false
  | .subjectKeyIdentifier _ => false
  | .keyUsage critical _ => critical
  | .extKeyUsage critical _ => critical
  | .unrecognized _ _ _ => false

def encodePurposes (purposes : List Bytes) : Bytes := purposes.flatMap (tlv derOid)

/-- The content of the OCTET STRING. -/
def value : Extension → Bytes
  | .basicConstraints body => body.encode
  | .authorityKeyIdentifier body => body.encode
  | .subjectKeyIdentifier body => tlv derOctetString body
  | .keyUsage _ body => body.encode
  | .extKeyUsage _ purposes => tlv derSequence (encodePurposes purposes)
  | .unrecognized _ value _ => value

def content (x : Extension) : Bytes :=
  tlv derOid x.oid ++ (defaultFalse x.critical ++ tlv derOctetString x.value)

def encode (x : Extension) : Bytes := tlv derSequence x.content

end Extension

def encodeExtensions (xs : List Extension) : Bytes := xs.flatMap Extension.encode

/-- At most `MAX_EXTN` extensions, no OID twice. -/
structure ExtensionList where
  extensions : List Extension
  length_le : extensions.length ≤ maxExtn
  nodup : (extensions.map Extension.oid).Nodup

def ExtensionList.encode (l : ExtensionList) : Bytes :=
  tlv derExplicit3 (tlv derSequence (encodeExtensions l.extensions))

/-- Extensions [3] OPTIONAL. -/
def encodeOptionalExtensions : Option ExtensionList → Bytes
  | none => []
  | some l => l.encode

/-- The members of an optional list. -/
def extensionMembers : Option ExtensionList → List Extension
  | none => []
  | some l => l.extensions

/-! ## Certificates -/

/-- TBSCertificate, version 3. -/
structure TbsCertificate where
  serialNumber : Bytes
  signature : AlgorithmIdentifier
  issuer : Name
  notBefore : Time
  notAfter : Time
  subject : Name
  subjectPublicKeyInfo : SubjectPublicKeyInfo
  issuerUniqueId : Option Bytes
  subjectUniqueId : Option Bytes
  extensions : Option ExtensionList

def encodeVersion : Bytes := tlv derExplicit0 (tlv derInteger [x509AcceptedVersion])

def TbsCertificate.encodeValidity (t : TbsCertificate) : Bytes :=
  tlv derSequence (t.notBefore.encode ++ t.notAfter.encode)

def TbsCertificate.content (t : TbsCertificate) : Bytes :=
  encodeVersion ++ (tlv derInteger t.serialNumber ++ (t.signature.encode ++
    (t.issuer.encode ++ (t.encodeValidity ++ (t.subject.encode ++
      (t.subjectPublicKeyInfo.encode ++ (optionalElement derImplicit1 t.issuerUniqueId ++
        (optionalElement derImplicit2 t.subjectUniqueId ++
          encodeOptionalExtensions t.extensions))))))))

def TbsCertificate.encode (t : TbsCertificate) : Bytes := tlv derSequence t.content

/-- The extensions of a certificate, none if it has no list. -/
def TbsCertificate.extensionList (t : TbsCertificate) : List Extension :=
  extensionMembers t.extensions

/-- Certificate; the outer signatureAlgorithm is the inner one again. -/
structure Certificate where
  tbsCertificate : TbsCertificate
  signatureValue : Bytes

def Certificate.content (c : Certificate) : Bytes :=
  c.tbsCertificate.encode ++
    (c.tbsCertificate.signature.encode ++ encodeBitstring c.signatureValue)

def Certificate.encode (c : Certificate) : Bytes := tlv derSequence c.content

/-! ## A certificate -/

/-- The UTCTime of the first second of 1970. -/
def epoch : Time where
  form := .utcTime
  contents := [55, 48, 48, 49, 48, 49, 48, 48, 48, 48, 48, 48, 90]
  unixTime := 0
  accepted := by decide +kernel

/-- digitalSignature and keyCertSign. -/
def signingUsage : KeyUsage where
  unused := 2
  first := 0x84
  second := none
  unused_lt := by decide
  last_bit := by decide

/-- The three extensions `extract_self_sign_for_code_sign` asks for. -/
def codeSigningExtensions (usage : KeyUsage) : ExtensionList where
  extensions := [.basicConstraints (.ca none), .keyUsage true usage,
    .extKeyUsage false [[0x2b, 0x06, 0x01, 0x05, 0x05, 0x07, 0x03, 0x03]]]
  length_le := by simp [maxExtn]
  nodup := by simp [Extension.oid, basicConstraintOid, keyUsageOid, extKeyUsageOid]

/-- A code signing certificate for an algorithm, with empty names. -/
def codeSigningTbs (notBefore notAfter : Time) (usage : KeyUsage)
    (signature key : AlgorithmIdentifier) (subjectPublicKey : Bytes) : TbsCertificate where
  serialNumber := [1]
  signature := signature
  issuer := ⟨[]⟩
  notBefore := notBefore
  notAfter := notAfter
  subject := ⟨[]⟩
  subjectPublicKeyInfo := ⟨key, subjectPublicKey⟩
  issuerUniqueId := none
  subjectUniqueId := none
  extensions := some (codeSigningExtensions usage)

def ed25519Id : AlgorithmIdentifier := ⟨[0x2b, 0x65, 0x70], []⟩

/-- An Ed25519 certificate whose signature repeats one octet. -/
def ed25519Certificate (notAfter : Time) (usage : KeyUsage) (octet : UInt8) : Certificate where
  tbsCertificate := codeSigningTbs epoch notAfter usage ed25519Id ed25519Id
    (List.replicate 32 7)
  signatureValue := List.replicate 64 octet

end X509Server
