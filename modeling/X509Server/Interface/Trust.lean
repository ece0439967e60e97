import X509Server.Interface.Fields
import X509Server.Model.Crypto

/-!
# Certificates that are trusted

What a certificate has to carry, in terms of its own parts, for
`extract_self_sign_for_code_sign` to hand out its key, and what that key is.
-/

set_option autoImplicit false

namespace X509Server

open Der

/-- 1.3.6.1.5.5.7.3.3, id-kp-codeSigning. -/
def codeSigningOid : Bytes := [0x2b, 0x06, 0x01, 0x05, 0x05, 0x07, 0x03, 0x03]

/-- The signature algorithm of RSA with a digest. -/
def Digest.oid : Digest → Bytes
  | .sha256 => rsaSha256Oid
  | .sha384 => rsaSha384Oid
  | .sha512 => rsaSha512Oid

namespace Certificate

variable (c : Certificate)

/-- SubjectPublicKeyInfo of the certificate. -/
def keyInfo : SubjectPublicKeyInfo := c.tbsCertificate.subjectPublicKeyInfo

/-- The AlgorithmIdentifier of the signature. -/
def signatureAlgorithm : AlgorithmIdentifier := c.tbsCertificate.signature

/-- The extensions of the certificate. -/
def extensions : List Extension := c.tbsCertificate.extensionList

/-- Subject and authority key identifiers: both absent, or the same octets. -/
def KeyIdsAgree : Prop :=
  ((∀ id, .subjectKeyIdentifier id ∉ c.extensions) ∧
      ∀ body, .authorityKeyIdentifier body ∈ c.extensions → body.keyIdentifier = none) ∨
    ∃ id body, .subjectKeyIdentifier id ∈ c.extensions ∧
      .authorityKeyIdentifier body ∈ c.extensions ∧ body.keyIdentifier = some id

/-- The key is an Ed key of the given type and size, signed with its own algorithm. -/
structure EdKey (oid : Bytes) (type : KeyType) (size : ℕ) (pub : PubKey)
    (key : KeyMaterial) : Prop where
  algorithm : c.keyInfo.algorithm.algorithm = oid
  parameters : c.keyInfo.algorithm.parameters = []
  same : c.signatureAlgorithm.encode = c.keyInfo.algorithm.encode
  md : pub.openssl.md.value = none
  expSigSize : pub.expSigSize = size
  material : key = .raw type c.keyInfo.subjectPublicKey

/-- The key is an RSA key of one of the two sizes, and the signature algorithm names the
key's digest. -/
structure RsaKey (pub : PubKey) (key : KeyMaterial) : Prop where
  algorithm : c.keyInfo.algorithm.algorithm = rsaOid
  md : ∃ digest, c.signatureAlgorithm.algorithm = digest.oid ∧
    pub.openssl.md.value = some digest
  material : ∃ modulus exponent rest,
    c.keyInfo.subjectPublicKey =
        tlv derSequence (tlv derInteger modulus ++ tlv derInteger exponent) ++ rest ∧
      rsaSigSize modulus.length = some pub.expSigSize ∧ key = .rsa modulus exponent

/-- The key of a trusted certificate. -/
structure Trusted (env : OpenSsl) (pub : PubKey) (w : World) : Prop where
  /-- a critical basicConstraints extension with cA TRUE -/
  authority : ∃ x ∈ c.extensions, x.critical = true ∧ ∃ pathLen,
    x = .basicConstraints (.ca pathLen)
  keyUsage : ∃ critical body, .keyUsage critical body ∈ c.extensions
  codeSigning : ∃ critical purposes, .extKeyUsage critical purposes ∈ c.extensions ∧
    codeSigningOid ∈ purposes
  keyIds : c.KeyIdsAgree
  /-- the outer AlgorithmIdentifier repeats the octets of the inner one -/
  outer : c.encode = tlv derSequence (c.tbsCertificate.encode ++
    (c.signatureAlgorithm.encode ++ encodeBitstring c.signatureValue))
  /-- the signature verifies under the certificate's own key, over its TBS certificate -/
  key : ∃ key, w.material pub.openssl.pkey.value = some key ∧
    (c.EdKey ed25519Oid .ed25519 64 pub key ∨ c.EdKey ed448Oid .ed448 114 pub key ∨
      c.RsaKey pub key) ∧
    c.signatureValue.length = pub.expSigSize ∧
    env.verifies key pub.openssl.md.value c.tbsCertificate.encode c.signatureValue = true
  expiry : pub.expiry = c.tbsCertificate.notAfter.unixTime

end Certificate

/-! ## An RSA certificate -/

/-- A 3072-bit key, and the signature algorithm of RSA with SHA-256. -/
def rsaCertificate (usage : KeyUsage) (octet : UInt8) : Certificate where
  tbsCertificate := codeSigningTbs epoch epoch usage ⟨rsaSha256Oid, [0x05, 0x00]⟩
    ⟨rsaOid, [0x05, 0x00]⟩
    (tlv derSequence (tlv derInteger (0 :: List.replicate 384 0xff) ++
      tlv derInteger [0x01, 0x00, 0x01]))
  signatureValue := List.replicate 384 octet

end X509Server
