import X509Server.Interface.Dates
import X509Server.Interface.Sessions
import X509Server.Interface.Slots
import X509Server.Interface.Trust

/-!
# Where the keys come from

A key in use belongs to a certificate: the key object that its slot points to holds the key of
the certificate, and what the server verifies is verified with that object.
-/

set_option autoImplicit false

namespace X509Server

/-- `read_cert` was called with the file. -/
def Source.Reads (file : CertFile) : Source → Prop
  | .directory entries => ∃ entry ∈ entries, (entry.name ≠ "." ∧ entry.name ≠ "..") ∧
      entry.file = file
  | .file only => only = file

/-- The time lies in the validity period of the certificate, by the dates its Times are read
as. -/
structure Certificate.ReadAsValid (c : Certificate) (now : ℤ) : Prop where
  notBefore : ∃ d, c.tbsCertificate.notBefore.ReadAs d ∧ d.unixTime ≤ now
  notAfter : ∃ d, c.tbsCertificate.notAfter.ReadAs d ∧ now ≤ d.unixTime

/-- The key expires with the certificate, by the date its notAfter is read as. -/
def Certificate.ExpiresWith (c : Certificate) (key : PubKey) : Prop :=
  ∃ d, c.tbsCertificate.notAfter.ReadAs d ∧ key.expiry = d.unixTime

/-- The file holds a trusted certificate with the key, and was read when that was read as
valid. -/
def CertFile.Certifies (env : OpenSsl) (w : World) (key : PubKey) (file : CertFile) : Prop :=
  ∃ c : Certificate, file.contents = some c.encode ∧ c.ReadAsValid file.now ∧
    c.ExpiresWith key ∧ c.Trusted env key w

def Certified (env : OpenSsl) (w : World) (source : Source) (key : PubKey) : Prop :=
  ∃ file, source.Reads file ∧ file.Certifies env w key

/-- The signature verifies under the key object that the slot points to. -/
def World.verifies (env : OpenSsl) (w : World) (key : PubKey) (data sig : Bytes) : Bool :=
  match w.material key.openssl.pkey.value with
  | some material => env.verifies material key.openssl.md.value data sig
  | none => false

/-- What is accepted for a key in use, `pub_key_verify` accepts behind some verifications and
removals. -/
def VerifiedByOpenSsl (env : OpenSsl) (store : KeyStore) (w : World)
    (verify : PubKey → Bytes → Bytes → Bool) : Prop :=
  ∀ key ∈ store.loaded, ∀ data sig, verify key data sig = true → ∃ ops s w₁ w₂,
    (∀ op ∈ ops, op.slot < store.keysSize) ∧
      KeyStore.performAll env ops store w = .ok (s, w₁) ∧
        pubKeyVerify env key data sig w₁ = .ok (true, w₂)

end X509Server
