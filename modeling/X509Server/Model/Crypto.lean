import X509Server.Model.Extension
import X509Server.Model.OpenSsl

/-!
# crypto.c

Every function that has `PubKey *ret_pub_key` takes the structure it points to and returns
it updated, on failure too: the slot of a rejected certificate is used again.  The checks
read the certificate and may fault; what is called of OpenSSL changes the `World`.
-/

set_option autoImplicit false

namespace X509Server

/-- `ExtractCode`.
CSRC: crypto.h:38-48 -/
inductive ExtractCode where
  | certOk
  | expired
  | notBefore
  | invalidUsage
  | invalidSelfSign
  | invalidSig
  | invalidPubKey
  | invalidPubKeyParams
  | unsupportedAlg
  deriving DecidableEq, Repr

/-- The OpenSSL member of the union in `PubKey`. -/
structure OpenSslKey where
  pkey : Field ℕ
  mdCtx : Field ℕ
  md : Field (Option Digest)
  deriving DecidableEq, Repr

/-- `PubKey`.
CSRC: crypto.h:15-34 -/
structure PubKey where
  expiry : ℤ
  expSigSize : ℕ
  algIdx : ℕ
  openssl : OpenSslKey
  deriving DecidableEq, Repr

/-- A slot the program never stored to, where the memory holds zeros. -/
def PubKey.unwritten : PubKey where
  expiry := 0
  expSigSize := 0
  algIdx := 0
  openssl := ⟨⟨null, false⟩, ⟨null, false⟩, ⟨none, false⟩⟩

/-- A computation of crypto.c: its own codes are values, so it can only fault. -/
abbrev Crypto (α : Type) := Guarded Empty α

/-- A call of a parser whose code is looked at. -/
def tryParse {α : Type} (p : Parse α) : Crypto (Option α) :=
  match p with
  | .ok a => .ok (some a)
  | .error (.code _) => .ok none
  | .error (.fault f) => .error (.fault f)

/-- `certeq`.
CSRC: crypto.c:18-20 -/
def certeq (raw : Bytes) (start0 end0 start1 end1 : ℕ) : Crypto Bool := do
  let size0 ← usub end0 start0
  let size1 ← usub end1 start1
  memeq raw start0 size0 start1 size1

/-- The result of an extraction: code, slot and world. -/
abbrev Extraction := ExtractCode × PubKey × World

section Extract

variable (env : OpenSsl) (raw : Bytes) (fields : X509Fields)

/-! ## Ed25519 and Ed448 -/

/-- The OpenSSL part of `ed_extract`.
CSRC: crypto.c:40-53 -/
def edConstruct (keyType : KeyType) (key : Bytes) (pub : PubKey) (w : World) : Extraction :=
  let (pkey, w) := evpPkeyNewRawPublicKey env keyType key w
  if pkey = null then (.invalidPubKey, pub, w)
  else
    let (mdCtx, w) := w.create env
    let pub := { pub with openssl := ⟨.store pkey, .store mdCtx, .store none⟩ }
    if mdCtx = null then (.invalidPubKey, pub, w) else (.certOk, pub, w)

/-- `ed_extract`.
CSRC: crypto.c:27-54 -/
def edExtract (keyType : KeyType) (pub : PubKey) (w : World) : Crypto Extraction :=
  if fields.pubKeyOidEnd ≠ fields.pubKeyIdEnd then .ok (.invalidPubKeyParams, pub, w)
  else do
    let same ← certeq raw fields.sigIdStart fields.sigIdEnd fields.pubKeyIdStart
      fields.pubKeyIdEnd
    if same = false then .ok (.invalidSig, pub, w)
    else do
      let size ← usub fields.pubKeyEnd fields.pubKeyStart
      let key ← rawRange raw fields.pubKeyStart size
      .ok (edConstruct env keyType key pub w)

/-- `ed25519_extract`.
CSRC: crypto.c:56-59 -/
def ed25519Extract (pub : PubKey) (w : World) : Crypto Extraction :=
  edExtract env raw fields .ed25519 { pub with expSigSize := 64 } w

/-- `ed448_extract`.
CSRC: crypto.c:60-63 -/
def ed448Extract (pub : PubKey) (w : World) : Crypto Extraction :=
  edExtract env raw fields .ed448 { pub with expSigSize := 114 } w

/-! ## RSA -/

def rsaSha256Oid : Bytes := [0x2a, 0x86, 0x48, 0x86, 0xf7, 0x0d, 0x01, 0x01, 0x0b]
def rsaSha384Oid : Bytes := [0x2a, 0x86, 0x48, 0x86, 0xf7, 0x0d, 0x01, 0x01, 0x0c]
def rsaSha512Oid : Bytes := [0x2a, 0x86, 0x48, 0x86, 0xf7, 0x0d, 0x01, 0x01, 0x0d]

/-- The digest the signature algorithm names.
CSRC: crypto.c:81-93 -/
def rsaDigest (oidSize : ℕ) : Crypto (Option Digest) := do
  let is256 ← memeqConst rsaSha256Oid raw fields.sigOidStart oidSize
  if is256 then .ok (some .sha256)
  else do
    let is384 ← memeqConst rsaSha384Oid raw fields.sigOidStart oidSize
    if is384 then .ok (some .sha384)
    else do
      let is512 ← memeqConst rsaSha512Oid raw fields.sigOidStart oidSize
      if is512 then .ok (some .sha512) else .ok none

/-- Where modulus and exponent lie in the certificate. -/
structure RsaRanges where
  modulusStart : ℕ
  modulusEnd : ℕ
  expStart : ℕ
  expEnd : ℕ
  deriving DecidableEq, Repr

/-- The two INTEGERs of the key, `none` for `INVALID_PUB_KEY`.
CSRC: crypto.c:95-120 -/
def rsaRanges : Crypto (Option RsaRanges) := do
  match ← tryParse (parseDataElement raw derSequence fields.pubKeyStart fields.pubKeyEnd) with
  | none => .ok none
  | some (idx, seqEnd) =>
    match ← tryParse (parseDataElement raw derInteger idx seqEnd) with
    | none => .ok none
    | some (modulusStart, modulusEnd) =>
      match ← tryParse (parseDataElement raw derInteger modulusEnd seqEnd) with
      | none => .ok none
      | some (expStart, expEnd) =>
        if expEnd ≠ seqEnd then .ok none
        else .ok (some ⟨modulusStart, modulusEnd, expStart, expEnd⟩)

/-- The signature size of a modulus size.
CSRC: crypto.c:123-132 -/
def rsaSigSize (modulusSize : ℕ) : Option ℕ :=
  if modulusSize = 385 then some 384
  else if modulusSize = 513 then some 512
  else none

/-- The objects `rsa_extract` releases at `out`.
CSRC: crypto.c:136-140 -/
structure RsaLocals where
  modulus : ℕ := null
  exp : ℕ := null
  rsaBuild : ℕ := null
  rsaParams : ℕ := null
  ctx : ℕ := null

/-- `out:`.
CSRC: crypto.c:199-211 -/
def RsaLocals.release (l : RsaLocals) (w : World) : World :=
  ((((w.free l.ctx).free l.rsaParams).free l.rsaBuild).free l.exp).free l.modulus

/-- The three pushes; a failing one ends the sequence.
CSRC: crypto.c:159-163 -/
def pushRsaParams (w : World) : Bool × World :=
  let (n, w) := w.answer env
  if n = false then (false, w)
  else
    let (e, w) := w.answer env
    if e = false then (false, w) else w.answer env

/-- The acquisitions in front of `EVP_PKEY_fromdata`: what is held, and whether all
succeeded.
CSRC: crypto.c:142-180 -/
def rsaPrepare (w : World) : Bool × RsaLocals × World :=
  let (modulus, w) := w.create env
  if modulus = null then (false, {}, w)
  else
    let (exp, w) := w.create env
    if exp = null then (false, { modulus }, w)
    else
      let (rsaBuild, w) := w.create env
      if rsaBuild = null then (false, { modulus, exp }, w)
      else
        let (pushed, w) := pushRsaParams env w
        if pushed = false then (false, { modulus, exp, rsaBuild }, w)
        else
          let (rsaParams, w) := w.create env
          if rsaParams = null then (false, { modulus, exp, rsaBuild }, w)
          else
            let (ctx, w) := w.create env
            if ctx = null then (false, { modulus, exp, rsaBuild, rsaParams }, w)
            else
              let (ready, w) := w.answer env
              (ready, { modulus, exp, rsaBuild, rsaParams, ctx }, w)

/-- `EVP_PKEY_fromdata` and what follows it up to `out`.
CSRC: crypto.c:182-197 -/
def rsaFromdata (modulus exponent : Bytes) (pub : PubKey) (w : World) : Crypto Extraction :=
  let (ok, pkey, w) := evpPkeyFromdata env pub.openssl.pkey modulus exponent w
  let pub := { pub with openssl := { pub.openssl with pkey } }
  if ok = false then
    if pkey.value ≠ null then .ok (.invalidPubKey, pub, w.freeField pkey)
    else .ok (.invalidPubKey, pub, w)
  else do
    assertThat (decide (pkey.value ≠ null))
    let (mdCtx, w) := w.create env
    let pub := { pub with openssl := { pub.openssl with mdCtx := .store mdCtx } }
    if mdCtx ≠ null then .ok (.certOk, pub, w) else .ok (.invalidPubKey, pub, w)

/-- The OpenSSL part of `rsa_extract`.
CSRC: crypto.c:134-211 -/
def rsaConstruct (modulus exponent : Bytes) (pub : PubKey) (w : World) : Crypto Extraction :=
  let (ready, locals, w) := rsaPrepare env w
  if ready = false then .ok (.invalidPubKey, pub, locals.release w)
  else do
    let (code, pub, w) ← rsaFromdata env modulus exponent pub w
    .ok (code, pub, locals.release w)

/-- The checks of `rsa_extract`: a code, or the bytes of modulus and exponent.  The slot
gets its digest and its signature size on the way.
CSRC: crypto.c:69-132 -/
def rsaCheck (pub : PubKey) : Crypto ((ExtractCode ⊕ Bytes × Bytes) × PubKey) := do
  -- the code of parse_null is dropped, only its cursor is looked at
  let (_, idx) ← parseNull raw fields.pubKeyOidEnd fields.pubKeyIdEnd
  if idx ≠ fields.pubKeyIdEnd then .ok (.inl .invalidPubKeyParams, pub)
  else do
    let oidSize ← usub fields.sigOidEnd fields.sigOidStart
    match ← rsaDigest raw fields oidSize with
    | none => .ok (.inl .unsupportedAlg, pub)
    | some md =>
      let pub := { pub with openssl := { pub.openssl with md := .store (some md) } }
      match ← rsaRanges raw fields with
      | none => .ok (.inl .invalidPubKey, pub)
      | some r => do
        let modulusSize ← usub r.modulusEnd r.modulusStart
        match rsaSigSize modulusSize with
        | none => .ok (.inl .unsupportedAlg, pub)
        | some expSigSize => do
          let expSize ← usub r.expEnd r.expStart
          let modulus ← rawRange raw r.modulusStart modulusSize
          let exponent ← rawRange raw r.expStart expSize
          .ok (.inr (modulus, exponent), { pub with expSigSize })

/-- `rsa_extract`.
CSRC: crypto.c:69-212 -/
def rsaExtract (pub : PubKey) (w : World) : Crypto Extraction := do
  let (result, pub) ← rsaCheck raw fields pub
  match result with
  | .inl code => .ok (code, pub, w)
  | .inr (modulus, exponent) => rsaConstruct env modulus exponent pub w

/-! ## Verification and release -/

/-- `openssl_verify`.
CSRC: crypto.c:215-228 -/
def opensslVerify (pub : PubKey) (data sig : Bytes) (w : World) : Crypto (Bool × World) :=
  if sig.length ≠ pub.expSigSize then .ok (false, w)
  else do
    assertThat (decide (pub.openssl.mdCtx.value ≠ null))
    let (ok, w) := evpDigestVerifyInit env pub.openssl.mdCtx pub.openssl.md pub.openssl.pkey w
    if ok = false then .ok (false, w) else .ok (evpDigestVerify env pub.openssl.mdCtx sig data w)

/-- `openssl_free`.
CSRC: crypto.c:233-236 -/
def opensslFree (pub : PubKey) (w : World) : World :=
  (w.freeField pub.openssl.pkey).freeField pub.openssl.mdCtx

/-! ## The table of algorithms -/

/-- `SupportedAlg`; the three algorithms share `openssl_verify` and `openssl_free`.
CSRC: crypto.c:10-16 -/
structure SupportedAlg where
  oid : Bytes
  extractKey : OpenSsl → Bytes → X509Fields → PubKey → World → Crypto Extraction

def ed25519Oid : Bytes := [0x2b, 0x65, 0x70]
def ed448Oid : Bytes := [0x2b, 0x65, 0x71]
def rsaOid : Bytes := [0x2a, 0x86, 0x48, 0x86, 0xf7, 0x0d, 0x01, 0x01, 0x01]

/-- `supported_algs`.
CSRC: crypto.c:249-255 -/
def supportedAlgs : List SupportedAlg :=
  [⟨ed25519Oid, ed25519Extract⟩, ⟨ed448Oid, ed448Extract⟩, ⟨rsaOid, rsaExtract⟩]

/-- The search of the table from entry `idx` on.
CSRC: crypto.c:259-268 -/
def extractByAlg (pub : PubKey) (w : World) : ℕ → List SupportedAlg → Crypto Extraction
  | _, [] => .ok (.unsupportedAlg, pub, w)
  | idx, alg :: algs => do
    let oidSize ← usub fields.pubKeyOidEnd fields.pubKeyOidStart
    let found ← memeqConst alg.oid raw fields.pubKeyOidStart oidSize
    if found then alg.extractKey env raw fields { pub with algIdx := idx } w
    else extractByAlg pub w (idx + 1) algs

/-- `pub_key_extract`.
CSRC: crypto.c:258-269 -/
def pubKeyExtract (pub : PubKey) (w : World) : Crypto Extraction :=
  extractByAlg env raw fields pub w 0 supportedAlgs

/-- `pub_key_verify`.
CSRC: crypto.c:320-327 -/
def pubKeyVerify (pub : PubKey) (data sig : Bytes) (w : World) : Crypto (Bool × World) :=
  if pub.expSigSize ≠ sig.length then .ok (false, w)
  else do
    assertThat (decide (pub.algIdx < supportedAlgs.length))
    opensslVerify env pub data sig w

/-- `pub_key_free`.
CSRC: crypto.c:329-334 -/
def pubKeyFree (pub : PubKey) (w : World) : Crypto World := do
  assertThat (decide (pub.algIdx < supportedAlgs.length))
  .ok (opensslFree pub w)

/-! ## Self-signed certificates -/

/-- The usage test.
CSRC: crypto.c:298-302 -/
def usageMask : UInt32 :=
  keyUsageFlagSign ||| keyUsageFlagKeyCertSign ||| keyUsageFlagCodeSigning

def usageAdmitted : Bool :=
  fields.hasKeyUsage && fields.hasExtKeyUsage &&
    decide (fields.keyUsageFlags &&& usageMask = usageMask)

/-- The key identifiers are compared where there are two of them.
CSRC: crypto.c:284-292 -/
def keyIdsMatch : Crypto Bool :=
  let isSkid := decide (fields.skidStart ≠ idxNone)
  let isAkid := decide (fields.akidStart ≠ idxNone)
  if isSkid ≠ isAkid then .ok false
  else if isSkid then certeq raw fields.skidStart fields.skidEnd fields.akidStart fields.akidEnd
  else .ok true

/-- The checks in front of `pub_key_extract`: the first code that applies.
CSRC: crypto.c:273-302 -/
def selfSignCheck (now : ℤ) : Crypto (Option ExtractCode) :=
  if fields.notAfter < now then .ok (some .expired)
  else if fields.notBefore > now then .ok (some .notBefore)
  else if fields.keyCertSign = false then .ok (some .invalidUsage)
  else do
    let same ← keyIdsMatch raw fields
    if same = false then .ok (some .invalidSelfSign)
    else if usageAdmitted fields = false then .ok (some .invalidUsage)
    else .ok none

/-- The certificate's own signature, checked with the key that was extracted.
CSRC: crypto.c:309-317 -/
def selfSignVerify (pub : PubKey) (w : World) : Crypto Extraction := do
  let dataSize ← usub fields.signedDataEnd fields.signedDataStart
  let sigSize ← usub fields.sigEnd fields.sigStart
  let data ← rawRange raw fields.signedDataStart dataSize
  let sig ← rawRange raw fields.sigStart sigSize
  let (ok, w) ← pubKeyVerify env pub data sig w
  if ok then .ok (.certOk, { pub with expiry := fields.notAfter }, w)
  else do
    let w ← pubKeyFree pub w
    .ok (.invalidSig, pub, w)

/-- `extract_self_sign_for_code_sign`.
CSRC: crypto.c:271-318 -/
def extractSelfSignForCodeSign (now : ℤ) (pub : PubKey) (w : World) : Crypto Extraction := do
  match ← selfSignCheck raw fields now with
  | some code => .ok (code, pub, w)
  | none => do
    let (code, pub, w) ← pubKeyExtract env raw fields pub w
    if code ≠ .certOk then .ok (code, pub, w) else selfSignVerify env raw fields pub w

end Extract

end X509Server
