import X509Server.Interface.Trust

/-!
# Key purposes

The purposes RFC 5280 gives an extended key usage, by their object identifiers, next to the
flags of x509.h that are named after them.
-/

set_option autoImplicit false

namespace X509Server

/-- 2.5.29.37.0, anyExtendedKeyUsage. -/
def anyExtendedKeyUsageOid : Bytes := [0x55, 0x1d, 0x25, 0x00]

/-- 1.3.6.1.5.5.7.3.n, the arc of id-kp. -/
def idKp (n : UInt8) : Bytes := [0x2b, 0x06, 0x01, 0x05, 0x05, 0x07, 0x03, n]

/-- The flags of the extended key usage (x509.h:116-151) and their purposes. -/
def purposeTable : List (UInt32 × Bytes) :=
  [(keyUsageFlagAnyExtended, anyExtendedKeyUsageOid), (keyUsageFlagServerAuth, idKp 1),
   (keyUsageFlagClientAuth, idKp 2), (keyUsageFlagCodeSigning, idKp 3),
   (keyUsageFlagEmailProtect, idKp 4), (keyUsageFlagTimestamp, idKp 8),
   (keyUsageFlagOcspSign, idKp 9)]

/-- The certificate has an extended key usage that lists the purpose. -/
def Certificate.Lists (c : Certificate) (purpose : Bytes) : Prop :=
  ∃ critical purposes, .extKeyUsage critical purposes ∈ c.extensions ∧ purpose ∈ purposes

/-- The extended key usage has been read: its presence, a flag for each purpose in the
table, and nothing in the half of the word that belongs to the key usage. -/
structure PurposesDecoded (raw : Bytes) (f : X509Fields) (c : Certificate) : Prop where
  present : f.hasExtKeyUsage = true ↔
    ∃ critical purposes, .extKeyUsage critical purposes ∈ c.extensions
  flags : ∀ flag purpose, (flag, purpose) ∈ purposeTable →
    (f.keyUsageFlags &&& flag ≠ 0 ↔ c.Lists purpose)
  low : ∀ idx extnEnd g g', extnEnd ≤ raw.length → parseExtKeyUsage raw idx extnEnd g = .ok g' →
    ∀ bit < 16, g'.keyUsageFlags.toNat.testBit bit = g.keyUsageFlags.toNat.testBit bit

end X509Server
