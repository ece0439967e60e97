import X509Server.Library.Runs
import X509Server.Model.Load

/-!
# Slots of the key array

`rsa_extract` hands the slot's own `pkey` member to `EVP_PKEY_fromdata`, which uses the
object it finds there.  These are the loads in which that member is fit for it: the program
has stored to it, and what it stored is `NULL` or an object that still exists.
-/

set_option autoImplicit false

namespace X509Server

open Runs

/-- The certificate is an RSA certificate that passes every check in front of
`EVP_PKEY_fromdata`, and the calls that prepare it succeed. -/
structure ReachesFromdata (env : OpenSsl) (raw : Bytes) (fields : X509Fields) (now : ℤ)
    (pub : PubKey) (w : World) : Prop where
  admitted : selfSignCheck raw fields now = .ok none
  algorithm : ∃ size, usub fields.pubKeyOidEnd fields.pubKeyOidStart = (.ok size : Crypto ℕ) ∧
    memeqConst rsaOid raw fields.pubKeyOidStart size = (.ok true : Crypto Bool)
  checked : ∃ octets pub', rsaCheck raw fields { pub with algIdx := 2 } = .ok (.inr octets, pub')
  prepared : (rsaPrepare env w).1 = true

/-- The `pkey` member has been written, and is `NULL` or an existing object. -/
def PubKey.Usable (pub : PubKey) (w : World) : Prop :=
  pub.openssl.pkey.written = true ∧
    (pub.openssl.pkey.value = null ∨ w.live pub.openssl.pkey.value = true)

/-- `read_cert` does not take an unusable slot to `EVP_PKEY_fromdata`. -/
def ReadAllowed (env : OpenSsl) (file : CertFile) (pub : PubKey) (w : World) : Prop :=
  ∀ raw fields, file.contents = some raw → parseX509 raw .zero = .ok fields →
    ReachesFromdata env raw fields file.now pub w → pub.Usable w

/-- The same for one turn of the directory loop. -/
def LoadAllowed (env : OpenSsl) (memory : ℕ → PubKey) (entry : DirEntry) (s : KeyStore)
    (w : World) : Prop :=
  ∀ slot, (s.reserve memory).keys[s.keysSize]? = some slot →
    ReadAllowed env entry.file slot w

/-- A turn of the directory loop that is allowed. -/
def LoadStep (env : OpenSsl) (memory : ℕ → PubKey) (s : KeyStore × World) (entry : DirEntry)
    (t : KeyStore × World) : Prop :=
  LoadAllowed env memory entry s.1 s.2 ∧ loadEntry env memory entry s.1 s.2 = .ok t

/-- A start of the server all of whose loads are allowed. -/
def AllowedStart (env : OpenSsl) (memory : ℕ → PubKey) (s : KeyStore) (w : World) :
    Source → Prop
  | .directory entries => Run (LoadStep env memory) (.malloc memory, .initial) entries (s, w)
  | .file file =>
    (∀ slot, (KeyStore.malloc memory).keys[0]? = some slot →
      ReadAllowed env file slot .initial) ∧
      (KeyStore.malloc memory).read env file .initial = .ok (s, w)

/-- The two objects of a slot. -/
def PubKey.handles (pub : PubKey) : List ℕ := [pub.openssl.pkey.value, pub.openssl.mdCtx.value]

/-- The objects of a list of slots. -/
def handlesOf (keys : List PubKey) : List ℕ := keys.flatMap PubKey.handles

end X509Server
