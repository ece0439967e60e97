import X509Server.Interface.Slots

/-!
# Ownership of what an extraction creates

`extract_self_sign_for_code_sign` hands its two objects to the caller if it returns
`CERT_OK`, and the caller is told not to free anything otherwise.  So on any other result
nothing may be left.  These are the outcomes in which that is so, and the certificates, slots
and answers of OpenSSL that lead to them.
-/

set_option autoImplicit false

namespace X509Server

/-- What exists has been given out, and so has what the program has stored in the slot. -/
structure World.Issued (w : World) (pub : PubKey) : Prop where
  next_pos : null < w.next
  live : ∀ h, w.live h = true → h ≠ null ∧ h < w.next
  stored : pub.openssl.pkey.written = true → pub.openssl.pkey.value < w.next

/-- The objects that exist behind the extraction and did not exist in front of it are the
slot's key and context on success, and none otherwise.  What existed before still does, and
no object has been freed twice, used behind that, or handed over uninitialised. -/
structure Owns (w : World) (r : Extraction) : Prop where
  left : ∀ h, (w.live h = false ∧ r.2.2.live h = true) ↔
    r.1 = .certOk ∧ (h = r.2.1.openssl.pkey.value ∨ h = r.2.1.openssl.mdCtx.value)
  kept : ∀ h, w.live h = true → r.2.2.live h = true
  once : r.2.2.misuses = w.misuses

/-- The certificate passes every check in front of `EVP_PKEY_new_raw_public_key`. -/
structure ReachesRawKey (raw : Bytes) (fields : X509Fields) (now : ℤ) : Prop where
  admitted : selfSignCheck raw fields now = .ok none
  algorithm : ∃ size oid, (oid = ed25519Oid ∨ oid = ed448Oid) ∧
    usub fields.pubKeyOidEnd fields.pubKeyOidStart = (.ok size : Crypto ℕ) ∧
    memeqConst oid raw fields.pubKeyOidStart size = (.ok true : Crypto Bool)
  bare : fields.pubKeyOidEnd = fields.pubKeyIdEnd
  matching : certeq raw fields.sigIdStart fields.sigIdEnd fields.pubKeyIdStart
    fields.pubKeyIdEnd = .ok true

/-- The slot and the answers with which `EVP_PKEY_fromdata`, as call `n`, and
`EVP_MD_CTX_new` behind it leave nothing: the member is `NULL`, and no context is refused for
a key that was made; or the member is a key from before, and a context is refused for it. -/
def PubKey.Keeps (pub : PubKey) (env : OpenSsl) (w : World) (n : ℕ) : Prop :=
  pub.Usable w ∧
    if pub.openssl.pkey.value = null then
      env.succeeds n = true → env.succeeds (n + 1) = true
    else env.succeeds n = true ∧ env.succeeds (n + 1) = false

/-- `EVP_MD_CTX_new` does not fail behind a call that has made a key, and an RSA certificate
comes to a slot that is fit for it.  `EVP_PKEY_new_raw_public_key` is the first call, and
`EVP_PKEY_fromdata` the tenth. -/
structure KeepsOwnership (env : OpenSsl) (raw : Bytes) (fields : X509Fields) (now : ℤ)
    (pub : PubKey) (w : World) : Prop where
  ed : ReachesRawKey raw fields now →
    env.succeeds w.calls = true → env.succeeds (w.calls + 1) = true
  rsa : ReachesFromdata env raw fields now pub w → pub.Keeps env w (w.calls + 9)

end X509Server
