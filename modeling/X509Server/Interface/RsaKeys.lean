import X509Server.Interface.Trust

/-!
# RSA keys

What an RSA key should be for which `rsa_extract` returns `CERT_OK`: a modulus of the size its
signatures have, a public key field that is used up, and parameters that are `NULL` on both
sides.
-/

set_option autoImplicit false

namespace X509Server

open ByteWindow Der

/-- The octets that `rsa_extract` hands to `BN_bin2bn`. -/
def RsaReads (raw : Bytes) (f : X509Fields) (pub : PubKey) (modulus exponent : Bytes) : Prop :=
  ∃ pub', rsaCheck raw f pub = .ok (.inr (modulus, exponent), pub')

/-- The unsigned number in the modulus has exactly as many octets as the signatures, and is
the number of the INTEGER. -/
structure ModulusSized (modulus : Bytes) (expSigSize : ℕ) : Prop where
  lower : 2 ^ (8 * expSigSize - 8) ≤ beNat modulus
  upper : beNat modulus < 2 ^ (8 * expSigSize)
  integer : (beNat modulus : ℤ) = intValue modulus

/-- The BIT STRING of the key is one SEQUENCE of two INTEGERs. -/
def KeyConsumed (raw : Bytes) (f : X509Fields) : Prop :=
  ∃ modulus exponent, window raw f.pubKeyStart f.pubKeyEnd =
    tlv derSequence (tlv derInteger modulus ++ tlv derInteger exponent)

/-- The length that the first element of the BIT STRING declares is the number of octets
behind its header. -/
def HeaderReaches (raw : Bytes) (f : X509Fields) : Prop :=
  ∃ n, lengthOctets n <+: window raw (f.pubKeyStart + 1) f.pubKeyEnd ∧
    f.pubKeyStart + 1 + (lengthOctets n).length + n = f.pubKeyEnd

/-- The AlgorithmIdentifier of the key is rsaEncryption with `NULL`, and the parameters of
the signature algorithm are `NULL`. -/
structure NullParameters (raw : Bytes) (f : X509Fields) : Prop where
  key : window raw f.pubKeyIdStart f.pubKeyIdEnd =
    tlv derSequence (tlv derOid rsaOid ++ [0x05, 0x00])
  keyParameters : window raw f.pubKeyOidEnd f.pubKeyIdEnd = [0x05, 0x00]
  sigParameters : window raw f.sigOidEnd f.sigIdEnd = [0x05, 0x00]

end X509Server
