import X509Server.Model.Machine

/-!
# The OpenSSL calls of crypto.c

OpenSSL is not part of the repository.  What the program relies on is modelled by a
`World`: which objects exist, what key an `EVP_PKEY` holds, what an `EVP_MD_CTX` has been
initialised with.  A handle is a number and 0 is `NULL`; a handle is given out once.

The environment `OpenSsl` answers: whether a call that can fail succeeds (its calls are
counted), and whether a signature verifies.  A call with a handle that the program never
wrote, or whose object is gone, has no meaning in C; it is entered in `World.misuses`, and
the run goes on as if the handle were good, so that nothing behind such a call is lost.
-/

set_option autoImplicit false

namespace X509Server

/-! ## Objects -/

/-- A member of a C structure.  `written` records whether the program ever stored to it;
C has no such bit, memory from `malloc` has it clear and holds anything. -/
structure Field (α : Type) where
  value : α
  written : Bool
  deriving DecidableEq, Repr

/-- A member after a store. -/
def Field.store {α : Type} (value : α) : Field α := ⟨value, true⟩

/-- `NULL`. -/
def null : ℕ := 0

/-- The types `EVP_PKEY_new_raw_public_key` is called with. -/
inductive KeyType where
  | ed25519
  | ed448
  deriving DecidableEq, Repr

/-- `EVP_sha256`, `EVP_sha384`, `EVP_sha512`. -/
inductive Digest where
  | sha256
  | sha384
  | sha512
  deriving DecidableEq, Repr

/-- What an `EVP_PKEY` holds. -/
inductive KeyMaterial where
  | raw (type : KeyType) (key : Bytes)
  | rsa (modulus exponent : Bytes)
  deriving DecidableEq, Repr

/-- A handle that must not be passed to OpenSSL. -/
inductive Misuse where
  | uninitialised
  | freed
  deriving DecidableEq, Repr

/-- The state of OpenSSL. -/
structure World where
  /-- calls answered so far -/
  calls : ℕ
  /-- the next handle -/
  next : ℕ
  live : ℕ → Bool
  material : ℕ → Option KeyMaterial
  /-- key and digest an `EVP_MD_CTX` was initialised with -/
  context : ℕ → Option (Option KeyMaterial × Option Digest)
  misuses : List Misuse

/-- Before the first call. -/
def World.initial : World where
  calls := 0
  next := 1
  live := fun _ => false
  material := fun _ => none
  context := fun _ => none
  misuses := []

/-- The answers of OpenSSL. -/
structure OpenSsl where
  succeeds : ℕ → Bool
  verifies : KeyMaterial → Option Digest → Bytes → Bytes → Bool

/-- Every call succeeds and every signature verifies. -/
def OpenSsl.accepting : OpenSsl := ⟨fun _ => true, fun _ _ _ _ => true⟩

/-! ## Calls -/

section Calls

variable (env : OpenSsl)

/-- A call that succeeds or fails. -/
def World.answer (w : World) : Bool × World :=
  (env.succeeds w.calls, { w with calls := w.calls + 1 })

/-- A constructor: a new handle, or `NULL`. -/
def World.create (w : World) : ℕ × World :=
  if env.succeeds w.calls then
    (w.next, { w with
      calls := w.calls + 1, next := w.next + 1, live := Function.update w.live w.next true })
  else (null, { w with calls := w.calls + 1 })

/-- A destructor; `NULL` is passed over. -/
def World.free (handle : ℕ) (w : World) : World :=
  if handle = null then w
  else if w.live handle then { w with live := Function.update w.live handle false }
  else { w with misuses := w.misuses ++ [.freed] }

/-- A handle member is handed to OpenSSL. -/
def World.pass (handle : Field ℕ) (w : World) : World :=
  if handle.written = false then { w with misuses := w.misuses ++ [.uninitialised] }
  else if handle.value = null ∨ w.live handle.value then w
  else { w with misuses := w.misuses ++ [.freed] }

/-- A digest member is handed to OpenSSL; digests are never freed. -/
def World.passDigest (md : Field (Option Digest)) (w : World) : World :=
  if md.written = false then { w with misuses := w.misuses ++ [.uninitialised] } else w

/-- A handle member is handed to a destructor. -/
def World.freeField (handle : Field ℕ) (w : World) : World :=
  if handle.written = false then { w with misuses := w.misuses ++ [.uninitialised] }
  else w.free handle.value

/-- `EVP_PKEY_new_raw_public_key`. -/
def evpPkeyNewRawPublicKey (type : KeyType) (key : Bytes) (w : World) : ℕ × World :=
  let (handle, w) := w.create env
  if handle = null then (null, w)
  else (handle, { w with material := Function.update w.material handle (some (.raw type key)) })

/-- `EVP_PKEY_fromdata` with the parameters of an RSA public key: it fills the object
`*ppkey` points to, which it creates if `*ppkey` is `NULL`.  The answer, `*ppkey` behind
the call and the world. -/
def evpPkeyFromdata (ppkey : Field ℕ) (modulus exponent : Bytes) (w : World) :
    Bool × Field ℕ × World :=
  let w := w.pass ppkey
  if ppkey.value = null then
    let (handle, w) := w.create env
    if handle = null then (false, .store null, w)
    else (true, .store handle, { w with
      material := Function.update w.material handle (some (.rsa modulus exponent)) })
  else
    let (ok, w) := w.answer env
    if ok then (true, ppkey, { w with
      material := Function.update w.material ppkey.value (some (.rsa modulus exponent)) })
    else (false, ppkey, w)

/-- `EVP_DigestVerifyInit`. -/
def evpDigestVerifyInit (mdCtx : Field ℕ) (md : Field (Option Digest)) (pkey : Field ℕ)
    (w : World) : Bool × World :=
  let w := ((w.pass mdCtx).passDigest md).pass pkey
  let (ok, w) := w.answer env
  if ok then (true, { w with
    context := Function.update w.context mdCtx.value
      (some (w.material pkey.value, md.value)) })
  else (false, w)

/-- `EVP_DigestVerify(…) == 1`. -/
def evpDigestVerify (mdCtx : Field ℕ) (sig data : Bytes) (w : World) : Bool × World :=
  let w := w.pass mdCtx
  match w.context mdCtx.value with
  | some (some key, md) => (env.verifies key md data sig, w)
  | _ => (false, w)

end Calls

end X509Server
