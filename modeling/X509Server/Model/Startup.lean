import X509Server.Model.Process

/-!
# The start of the server

`main_protected` up to its loop, `read_cert` with its system calls, and `main`.  What the
calls answer is an argument; for a path that the program puts together it is a function of
the path.  A path is the bytes in front of its terminating zero.
-/

set_option autoImplicit false

namespace X509Server

open Checked Stateful

/-- What the calls in `read_cert` answer: `open`, `st_size` unless `fstat` fails, the address
and the memory there unless `mmap` fails, and `time`. -/
structure FileCalls where
  fd : ℤ
  size : Option ℤ
  mapped : Option (ℕ × (ℕ → UInt8))
  now : ℤ
  size_lt : ∀ n ∈ size, n < 2 ^ 63

/-- What `readdir` answers, and the calls in `read_cert` behind it.  `d_name` is an array of
256 characters. -/
structure EntryCalls where
  name : Bytes
  fileAt : Bytes → FileCalls
  name_lt : name.length < 256

/-- What the system answers while the server starts.  `path` is `argv[1]`, `isDir` says what
`stat` finds, and `entries` is what is in the directory. -/
structure StartCalls where
  path : Option Bytes
  socket : ℤ
  bind : Bool
  listen : Bool
  epollCreate : ℤ
  epollCtl : Bool
  isDir : Bytes → Option Bool
  opendir : Bytes → Option ℕ
  entries : List EntryCalls
  fileAt : Bytes → FileCalls
  path_lt : ∀ bytes ∈ path, bytes.length < 2 ^ 63

/-- `return -1` in front of the loop. -/
inductive StartFailure where
  /-- "Missing file or directory of trusted x509 certificates" -/
  | missingPath
  /-- "Failed to open a TCP socket" -/
  | socketFailed
  /-- "Failed to bind a TCP socket" -/
  | bindFailed
  /-- the same text, for `listen` -/
  | listenFailed
  /-- "Call to epoll_create1 failed" -/
  | epollCreateFailed
  /-- "Call to epoll_ctl failed" -/
  | epollCtlFailed
  /-- "Unable to retrieve file stats of %s; does it exist?" -/
  | statFailed
  /-- "Could not open certificate directory '%s'" -/
  | opendirFailed
  /-- "Could not find a valid certificate in '%s'" -/
  | noCertificate
  /-- the only certificate has been rejected -/
  | certificateRejected
  deriving DecidableEq, Repr

/-- `return -1` if a call has failed. -/
def failIf (failed : Prop) [Decidable failed] (failure : StartFailure) :
    Guarded StartFailure Unit :=
  if failed then .error (.code failure) else .ok ()

/-! ## `read_cert` -/

section Read

variable {ε : Type} (env : OpenSsl)

/-- The certificate between `mmap` and `munmap`.
CSRC: read_cert.c:49-130 -/
def checkCert (raw : Bytes) (now : ℤ) (pub : PubKey) (w : World) :
    Crypto (Bool × PubKey × World) := do
  match ← tryParse (parseX509 raw .zero) with
  | none => .ok (false, pub, w)
  | some fields => do
    let (code, pub, w) ← extractSelfSignForCodeSign env raw fields now pub w
    .ok (decide (code = .certOk), pub, w)

/-- `read_cert`.
CSRC: read_cert.c:15-134 -/
def readCertFile (calls : FileCalls) (pub : PubKey) : Program ε (Bool × PubKey) := do
  if calls.fd < 0 then return (false, pub)
  else do
    acquire (.descriptor calls.fd)
    match calls.size with
    | none => do
      close calls.fd
      return (false, pub)
    | some size =>
      if size ≤ 0 then do
        close calls.fd
        return (false, pub)
      else
        match calls.mapped with
        | none => do
          close calls.fd
          return (false, pub)
        | some (address, cells) => do
          acquire (.mapping address size.toNat)
          let p ← get
          let raw := (List.range size.toNat).map cells
          let (accepted, pub, w) ←
            (widen (checkCert env raw calls.now pub p.world) : Guarded ε (Bool × PubKey × World))
          modify fun p => { p with world := w }
          release (.mapping address size.toNat)
          close calls.fd
          return (accepted, pub)

/-! ## The key array -/

/-- `read_cert` into the first free slot.
CSRC: main.c:206-208, main.c:226-227 -/
def readKey (calls : FileCalls) : Program ε Unit := do
  let p ← get
  let s := p.resources.toKeyStore
  let slot ← (slotAt s.keys s.keysSize : Guarded ε PubKey)
  let (accepted, pub) ← readCertFile env calls slot
  setKeys
    { keys := s.keys.set s.keysSize pub
      keysSize := if accepted then s.keysSize + 1 else s.keysSize }

variable (memory : ℕ → PubKey) (heap : ℕ → ℕ)

/-- `malloct(PubKey, 4)`.
CSRC: main.c:158-160 -/
def allocateKeys : Program ε Unit := do
  let address ← malloc heap
  modify fun p => { p with keysAt := some address }
  setKeys (.malloc memory)

/-- The array is doubled when it is full.
CSRC: main.c:187-190 -/
def reserveKeys : Program ε Unit := do
  let p ← get
  let s := p.resources.toKeyStore
  if s.keysSize ≥ s.keys.length then do
    let address ← realloc heap p.keysAt
    modify fun p => { p with keysAt := some address }
    setKeys (s.reserve memory)

/-! ## The directory -/

/-- `full_file_path` and `full_file_path_cap`. -/
structure PathBuf where
  address : ℕ
  cap : ℕ

/-- The buffer is enlarged if it is too small for so many characters.
CSRC: main.c:195-198 -/
def PathBuf.reserve (buf : PathBuf) (total : ℕ) : Program ε PathBuf := do
  if total > buf.cap then do
    let address ← realloc heap (some buf.address)
    return ⟨address, total⟩
  else return buf

/-- `sprintf` with a text that must fit the buffer, together with a zero. -/
def PathBuf.sprintf (buf : PathBuf) (text : Bytes) : Guarded ε Bytes :=
  if text.length + 1 ≤ buf.cap then .ok text else .error (.fault .outOfBounds)

/-- `path_len + 1 + strlen(entry->d_name) + 1`.
CSRC: main.c:194 -/
def pathSize (path name : Bytes) : Guarded ε ℕ := do
  let size ← uadd path.length 1
  let size ← uadd size name.length
  uadd size 1

/-- One turn of the directory loop.
CSRC: main.c:178-209 -/
def visitEntry (path : Bytes) (hasSep : Bool) (entry : EntryCalls) (buf : PathBuf) :
    Program ε PathBuf := do
  if entry.name = [0x2e] ∨ entry.name = [0x2e, 0x2e] then return buf
  else do
    reserveKeys memory heap
    let total ← (pathSize path entry.name : Guarded ε ℕ)
    let buf ← buf.reserve heap total
    let text := if hasSep then path ++ entry.name else path ++ 0x2f :: entry.name
    let fullPath ← (buf.sprintf text : Guarded ε Bytes)
    readKey env (entry.fileAt fullPath)
    return buf

/-- The directory loop.
CSRC: main.c:178-209 -/
def visitEntries (path : Bytes) (hasSep : Bool) :
    List EntryCalls → PathBuf → Program ε PathBuf
  | [], buf => return buf
  | entry :: entries, buf => do
    let buf ← visitEntry env memory heap path hasSep entry buf
    visitEntries path hasSep entries buf

end Read

/-! ## `main_protected` -/

variable (env : OpenSsl) (memory : ℕ → PubKey) (heap : ℕ → ℕ)

/-- The descriptor that a call has returned, if it is one. -/
def openFd (fd : ℤ) : Program StartFailure Unit :=
  if fd ≥ 0 then acquire (.descriptor fd) else pure ()

/-- The sockets.
CSRC: main.c:115-150 -/
def openSockets (calls : StartCalls) : Program StartFailure Unit := do
  openFd calls.socket
  modify fun p => { p with socketFd := calls.socket }
  failIf (calls.socket < 0) .socketFailed
  failIf (calls.bind = false) .bindFailed
  failIf (calls.listen = false) .listenFailed
  openFd calls.epollCreate
  modify fun p => { p with epollFd := calls.epollCreate }
  failIf (calls.epollCreate < 0) .epollCreateFailed
  failIf (calls.epollCtl = false) .epollCtlFailed

/-- The keys of a directory.
CSRC: main.c:164-223 -/
def openDirectory (calls : StartCalls) (path : Bytes) : Program StartFailure Unit := do
  match calls.opendir path with
  | none => throw (.code .opendirFailed)
  | some dir => do
    acquire (.directory dir)
    let address ← malloc heap
    (assertThat (decide (path.length > 1)) : Guarded StartFailure Unit)
    let last ← (rawByte path (path.length - 1) : Guarded StartFailure UInt8)
    let hasSep := decide (last = 0x2f)
    let buf ← visitEntries env memory heap path hasSep calls.entries ⟨address, kilobyte⟩
    free (some buf.address)
    release (.directory dir)
    let p ← get
    failIf (p.resources.keysSize = 0) .noCertificate

/-- The keys.
CSRC: main.c:152-231 -/
def openKeys (calls : StartCalls) (path : Bytes) : Program StartFailure Unit := do
  match calls.isDir path with
  | none => throw (.code .statFailed)
  | some isDir => do
    allocateKeys memory heap
    if isDir then openDirectory env memory heap calls path
    else do
      readKey env (calls.fileAt path)
      let p ← get
      failIf (p.resources.keysSize = 0) .certificateRejected

/-- `main_protected` up to its loop.
CSRC: main.c:105-231 -/
def startServer (calls : StartCalls) : Program StartFailure Unit := do
  match calls.path with
  | none => throw (.code .missingPath)
  | some path => do
    openSockets calls
    openKeys env memory heap calls path

variable (verify : PubKey → Bytes → Bytes → Bool)

/-- `main_protected`: the process when it returns, if it does.  An assertion that fails ends
the process at once.  A handle that was never written is noted in `World.misuses`, and what it
does to the process is not followed.
CSRC: main.c:105-404 -/
def mainProtected (calls : StartCalls) (labels : List Label) (held : Holdings) :
    Option Process :=
  match (startServer env memory heap calls).exec (.zero held) with
  | (.error (.code _), p) => some p
  | (.error (.fault _), _) => none
  | (.ok _, p) => do
    let d ← labels.foldlM (Daemon.step heap verify) (Daemon.start p)
    match d.phase with
    | .exited _ => some d.process
    | .running => none
    | .aborted _ => none

/-- `main`: the process behind `free_all`, if it comes to that.
CSRC: main.c:406-411 -/
def mainReturns (calls : StartCalls) (labels : List Label) (held : Holdings) :
    Option Process := do
  let p ← mainProtected env memory heap verify calls labels held
  match freeAll.exec p with
  | (.ok _, t) => some t
  | (.error _, _) => none

end X509Server
