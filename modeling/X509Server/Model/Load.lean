import X509Server.Model.Certificate
import X509Server.Model.Crypto

/-!
# read_cert.c and the key array of main.c

A file is what `read_cert` gets of it: its contents, if it can be opened and mapped, and the
time it is read at.  The key array is the list of its allocated slots; `malloc` and
`realloc` add slots that hold anything, which is the parameter `memory`.  Running out of
memory is not modelled.
-/

set_option autoImplicit false

namespace X509Server

/-! ## `read_cert` -/

/-- What `open`, `fstat`, `mmap` and `time` say about a path.  `st_size` is a signed 64-bit
number. -/
structure CertFile where
  contents : Option Bytes
  now : ℤ
  size_lt : ∀ raw ∈ contents, raw.length < 2 ^ 63

/-- `x509Fields fields = {0}`. -/
def X509Fields.zero : X509Fields where
  sigIdStart := 0
  sigIdEnd := 0
  sigOidStart := 0
  sigOidEnd := 0
  sigStart := 0
  sigEnd := 0
  pubKeyIdStart := 0
  pubKeyIdEnd := 0
  pubKeyOidStart := 0
  pubKeyOidEnd := 0
  pubKeyStart := 0
  pubKeyEnd := 0
  signedDataStart := 0
  signedDataEnd := 0
  certSerialStart := 0
  certSerialEnd := 0
  skidStart := 0
  skidEnd := 0
  akidStart := 0
  akidEnd := 0
  notBefore := 0
  notAfter := 0
  keyCertSign := false
  pathLenConstraint := 0
  hasKeyUsage := false
  hasExtKeyUsage := false
  keyUsageFlags := 0

section Load

variable (env : OpenSsl)

/-- `read_cert`: whether the slot has been filled with a key, the slot and the world.
CSRC: read_cert.c:15-134 -/
def readCert (file : CertFile) (pub : PubKey) (w : World) : Crypto (Bool × PubKey × World) :=
  match file.contents with
  | none => .ok (false, pub, w)
  | some raw =>
    if raw.length = 0 then .ok (false, pub, w)
    else do
      match ← tryParse (parseX509 raw .zero) with
      | none => .ok (false, pub, w)
      | some fields => do
        let (code, pub, w) ← extractSelfSignForCodeSign env raw fields file.now pub w
        .ok (decide (code = .certOk), pub, w)

/-! ## The key array -/

/-- The key members of `Resources`; `keys_cap` is the length of the list.
CSRC: main.c:52-54 -/
structure KeyStore where
  keys : List PubKey
  keysSize : ℕ
  deriving DecidableEq, Repr

/-- `keys[0]` to `keys[keys_size - 1]`. -/
def KeyStore.loaded (s : KeyStore) : List PubKey := s.keys.take s.keysSize

/-- A slot of new memory: any values, none of which the program has written. -/
def PubKey.indeterminate (values : PubKey) : PubKey :=
  { values with openssl :=
    { pkey := ⟨values.openssl.pkey.value, false⟩
      mdCtx := ⟨values.openssl.mdCtx.value, false⟩
      md := ⟨values.openssl.md.value, false⟩ } }

variable (memory : ℕ → PubKey)

/-- `malloct(PubKey, 4)`.
CSRC: main.c:159-160 -/
def KeyStore.malloc : KeyStore where
  keys := (List.range 4).map fun i => (memory i).indeterminate
  keysSize := 0

/-- The array is doubled when it is full.
CSRC: main.c:187-190 -/
def KeyStore.reserve (s : KeyStore) : KeyStore :=
  if s.keysSize ≥ s.keys.length then
    { s with keys := s.keys ++
      (List.range s.keys.length).map fun i => (memory (s.keys.length + i)).indeterminate }
  else s

/-- `&keys[i]`, a slot of the array. -/
def slotAt {ε : Type} (keys : List PubKey) (i : ℕ) : Guarded ε PubKey :=
  match keys[i]? with
  | some key => .ok key
  | none => .error (.fault .outOfBounds)

/-- `read_cert` into the first free slot.
CSRC: main.c:206-208, main.c:226-227 -/
def KeyStore.read (file : CertFile) (s : KeyStore) (w : World) : Crypto (KeyStore × World) := do
  let slot ← slotAt s.keys s.keysSize
  let (accepted, pub, w) ← readCert env file slot w
  .ok ({ keys := s.keys.set s.keysSize pub
         keysSize := if accepted then s.keysSize + 1 else s.keysSize }, w)

/-- An entry of the directory. -/
structure DirEntry where
  name : String
  file : CertFile

/-- One turn of the directory loop.
CSRC: main.c:178-209 -/
def loadEntry (entry : DirEntry) (s : KeyStore) (w : World) : Crypto (KeyStore × World) :=
  if entry.name = "." ∨ entry.name = ".." then .ok (s, w)
  else (s.reserve memory).read env entry.file w

/-- The directory loop.
CSRC: main.c:178-209 -/
def loadDirectory : List DirEntry → KeyStore → World → Crypto (KeyStore × World)
  | [], s, w => .ok (s, w)
  | entry :: entries, s, w => do
    let (s, w) ← loadEntry env memory entry s w
    loadDirectory entries s w

/-- The path of the command line. -/
inductive Source where
  | directory (entries : List DirEntry)
  | file (file : CertFile)

/-- The start of the server up to its keys; it ends with -1 if there are none.
CSRC: main.c:158-231 -/
def loadKeys : Source → World → Crypto (KeyStore × World)
  | .directory entries, w => loadDirectory env memory entries (.malloc memory) w
  | .file file, w => (KeyStore.malloc memory).read env file w

/-! ## The keys in use -/

/-- `swap(PubKey, &keys[i], &keys[j])`.
CSRC: basic.h:85 -/
def swapSlots {ε : Type} (keys : List PubKey) (i j : ℕ) : Guarded ε (List PubKey) := do
  let a ← slotAt keys i
  let b ← slotAt keys j
  .ok ((keys.set i b).set j a)

/-- The removal of an expired key.
CSRC: main.c:362-364 -/
def KeyStore.swapRemove {ε : Type} (s : KeyStore) (i : ℕ) : Guarded ε KeyStore := do
  let last ← usub s.keysSize 1
  let keys ← swapSlots s.keys i last
  .ok { keys, keysSize := last }

/-- What the server does with its keys. -/
inductive KeyOperation where
  | verify (slot : ℕ) (data sig : Bytes)
  | swapRemove (slot : ℕ)

/-- The slot an operation is about. -/
def KeyOperation.slot : KeyOperation → ℕ
  | .verify slot _ _ => slot
  | .swapRemove slot => slot

/-- One operation; the last key is never removed.
CSRC: main.c:361-364, main.c:378 -/
def KeyStore.perform (s : KeyStore) (w : World) : KeyOperation → Crypto (KeyStore × World)
  | .verify slot data sig => do
    let key ← slotAt s.keys slot
    let (_, w) ← pubKeyVerify env key data sig w
    .ok (s, w)
  | .swapRemove slot =>
    if s.keysSize > 1 then do
      let s ← s.swapRemove slot
      .ok (s, w)
    else .ok (s, w)

def KeyStore.performAll : List KeyOperation → KeyStore → World → Crypto (KeyStore × World)
  | [], s, w => .ok (s, w)
  | op :: ops, s, w => do
    let (s, w) ← s.perform env w op
    KeyStore.performAll ops s w

end Load

/-- The keys are freed one by one.
CSRC: main.c:72 -/
def freeKeys : List PubKey → World → Crypto World
  | [], w => .ok w
  | key :: keys, w => do
    let w ← pubKeyFree key w
    freeKeys keys w

/-- The keys' part of `free_all`.
CSRC: main.c:71-74 -/
def KeyStore.freeAll (s : KeyStore) (w : World) : Crypto World :=
  freeKeys s.loaded w

end X509Server
