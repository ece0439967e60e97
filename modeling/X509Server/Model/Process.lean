import X509Server.Library.Ledger
import X509Server.Library.Stateful
import X509Server.Model.Server

/-!
# What the process holds

main.c again, with what `Server` leaves out: the descriptors the program opens and closes and
the memory it allocates and frees.  The members of `Resources` that are pointers hold the
addresses, and the account says what of all that exists.  An allocation answers what `heap`
says for its number; running out of memory is not modelled.  The objects of OpenSSL are in the
`World`; a verification neither makes one nor frees one, so the loop leaves that as it is.

The state is kept where the server stops, since `free_all` is called on it then.
-/

set_option autoImplicit false

namespace X509Server

open Ledgers Stateful

/-- What is given out to the process and taken back one by one. -/
inductive Resource where
  | descriptor (fd : ℤ)
  | mapping (address size : ℕ)
  | directory (address : ℕ)
  | block (address : ℕ)
  deriving DecidableEq, Repr

abbrev Holdings := Account Resource

/-- `Resources` with its handles; `bufsAt` are the addresses in `conns[i].buf`.
CSRC: main.c:33-57 -/
structure Process where
  epollFd : ℤ
  socketFd : ℤ
  keysAt : Option ℕ
  bufsAt : List (Option ℕ)
  resources : Resources
  world : World
  allocations : ℕ
  held : Holdings

/-- `Resources resources = {0}`.
CSRC: main.c:407 -/
def Process.zero (held : Holdings) : Process where
  epollFd := 0
  socketFd := 0
  keysAt := none
  bufsAt := List.replicate maxConcurrency none
  resources := (Server.start ⟨[], 0⟩).resources
  world := .initial
  allocations := 0
  held

/-- A part of the program. -/
abbrev Program (ε α : Type) := Task Process ε Fault α

section Calls

variable {ε : Type}

def acquire (resource : Resource) : Program ε Unit :=
  modify fun p => { p with held := p.held.acquire resource }

def release (resource : Resource) : Program ε Unit :=
  modify fun p => { p with held := p.held.release resource }

def close (fd : ℤ) : Program ε Unit := release (.descriptor fd)

/-- A member with a descriptor is closed if it has one. -/
def closeOpen (fd : ℤ) : Program ε Unit := if fd > 0 then close fd else pure ()

/-- `free`; nothing is done for `NULL`. -/
def free : Option ℕ → Program ε Unit
  | some address => release (.block address)
  | none => pure ()

variable (heap : ℕ → ℕ)

def malloc : Program ε ℕ := do
  let p ← get
  modify fun p => { p with allocations := p.allocations + 1 }
  acquire (.block (heap p.allocations))
  return heap p.allocations

/-- `realloc`; the new block may be where the old one was. -/
def realloc (address : Option ℕ) : Program ε ℕ := do
  free address
  malloc heap

end Calls

def setResources (r : Resources) : Program Exit Unit := modify fun p => { p with resources := r }

def setKeys {ε : Type} (s : KeyStore) : Program ε Unit :=
  modify fun p => { p with resources := { p.resources with toKeyStore := s } }

/-! ## Connections -/

/-- `free_conn`.
CSRC: main.c:90-98 -/
def closeConn (i : ℕ) : Program Exit (List Observation) := do
  let p ← get
  let conn ← connAt p.resources.conns i
  close conn.fd
  let (r, closed) ← p.resources.freeConn i
  setResources r
  return closed

/-- A full table gives up its oldest connection.
CSRC: main.c:250-262 -/
def evictConn : Program Exit (List Observation) := do
  let p ← get
  if p.resources.connsTotal ≥ maxConcurrency then
    match oldest p.resources.conns with
    | none => throw (.fault .assertFailed)
    | some i => closeConn i
  else return []

variable (heap : ℕ → ℕ)

/-- The buffer of a slot, if it has none.
CSRC: main.c:295-299 -/
def allocateBuf (i : ℕ) : Program Exit Unit := do
  let p ← get
  if p.bufsAt[i]? = some none then do
    let address ← malloc heap
    modify fun p => { p with bufsAt := p.bufsAt.set i (some address) }

/-- A full buffer is doubled.
CSRC: main.c:333-336 -/
def growBuf (i : ℕ) (conn : Connection) : Program Exit Unit := do
  let p ← get
  if conn.bufSize ≥ conn.bufCap then do
    let address ← realloc heap (p.bufsAt[i]?.join)
    modify fun p => { p with bufsAt := p.bufsAt.set i (some address) }

/-- The search for an unused slot for what `accept` has returned.
CSRC: main.c:275-305 -/
def registerConn (a : Answers) : Program Exit (List Observation) := do
  let p ← get
  let r := { p.resources with connsTotal := p.resources.connsTotal + 1 }
  setResources r
  match r.conns.findIdx? fun conn => decide (conn.fd ≤ 0) with
  | none => do
    (assertThat (decide (a.accept = 0)) : Served Unit)
    return []
  | some i => do
    let conn ← connAt r.conns i
    if a.epollCtl = false then do
      close a.accept
      (assertThat (decide (a.accept = 0)) : Served Unit)
      return []
    else do
      allocateBuf heap i
      setResources { r with conns := r.conns.set i (conn.attach a) }
      return [.opened i]

/-- An event of the listening socket.
CSRC: main.c:248-305 -/
def serveAccept (a : Answers) : Program Exit (List Observation) := do
  let evicted ← evictConn
  if a.accept < 0 then return evicted
  else do
    acquire (.descriptor a.accept)
    let opened ← registerConn heap a
    return evicted ++ opened

/-- The receive loop: whether the connection is to be closed, and the chunks.
CSRC: main.c:312-337 -/
def recvConn (slot : ℕ) : List RecvResult → Program Exit (Bool × List Bytes)
  | [] => return (false, [])
  | .failed again :: _ => return (!again, [])
  | .data available :: results => do
    let p ← get
    let conn ← connAt p.resources.conns slot
    let room ← (usub conn.bufCap conn.bufSize : Served ℕ)
    let chunk := available.take room
    if chunk = [] then return (false, [])
    else if conn.buf.isNone then throw (.fault .outOfBounds)
    else do
      let conn := conn.append chunk
      setResources { p.resources with conns := p.resources.conns.set slot conn }
      if conn.bufSize ≥ maxScriptSize then return (true, [chunk])
      else do
        growBuf heap slot conn
        setResources { p.resources with conns := p.resources.conns.set slot conn.grow }
        let (dropped, chunks) ← recvConn slot results
        return (dropped, chunk :: chunks)

/-- The first part of a connection's event.
CSRC: main.c:311-338 -/
def serveReceive (slot : ℕ) (e : Event) (a : Answers) : Program Exit (List Observation) := do
  if e.epollin then do
    let (dropped, chunks) ← recvConn heap slot a.recvs
    let obs := chunks.map (Observation.received slot)
    if dropped then do
      let closed ← closeConn slot
      return obs ++ closed
    else return obs
  else return []

variable (verify : PubKey → Bytes → Bytes → Bool)

/-- The loop over the keys, which leaves what it has removed where the server ends.
CSRC: main.c:357-386 -/
def searchKeys (now : ℤ) (buf : Bytes) (bound : ℕ) : ℕ → ℕ → Program Exit (Option Bytes)
  | 0, _ => throw (.fault .outOfFuel)
  | fuel + 1, i =>
    if i < bound then do
      let p ← get
      let s := p.resources.toKeyStore
      let key ← (slotAt s.keys i : Served PubKey)
      if now > key.expiry then
        if s.keysSize > 1 then do
          let s ← (s.swapRemove i : Served KeyStore)
          setKeys s
          searchKeys now buf bound fuel i
        else throw (.code (.allCertificatesExpired now))
      else do
        match ← (key.readScript verify buf : Served (Option Bytes)) with
        | some script => return some script
        | none => searchKeys now buf bound fuel (i + 1)
    else return none

/-- The second part of a connection's event; `exec_script` keeps nothing.
CSRC: main.c:340-392 -/
def serveTermination (slot : ℕ) (e : Event) (a : Answers) :
    Program Exit (List Observation) := do
  let p ← get
  let conn ← connAt p.resources.conns slot
  if conn.fd > 0 ∧ (e.epollrdhup || e.epollhup) = true then do
    let size := p.resources.keysSize
    let script ← searchKeys verify a.time conn.contents size (size + size + 1) 0
    match script with
    | some script => do
      let p ← get
      let r := { p.resources with scriptN := p.resources.scriptN + 1 }
      setResources r
      let closed ← closeConn slot
      return .terminated slot a.time :: .executed slot script r.scriptN :: closed
    | none => do
      let closed ← closeConn slot
      return .terminated slot a.time :: closed
  else return []

/-- The third part of a connection's event.
CSRC: main.c:393-395 -/
def serveError (slot : ℕ) (e : Event) : Program Exit (List Observation) := do
  let p ← get
  let conn ← connAt p.resources.conns slot
  if conn.fd > 0 ∧ e.epollerr = true then closeConn slot else return []

/-- An event of a connection.
CSRC: main.c:306-395 -/
def serveConn (slot : ℕ) (e : Event) (a : Answers) : Program Exit (List Observation) := do
  let p ← get
  let conn ← connAt p.resources.conns slot
  (assertThat (decide (conn.fd > 0)) : Served Unit)
  let received ← serveReceive heap slot e a
  let terminated ← serveTermination verify slot e a
  let closed ← serveError slot e
  return received ++ terminated ++ closed

/-- One event of a batch.
CSRC: main.c:246-399 -/
def serveEvent (e : Event) (a : Answers) : Program Exit (List Observation) := do
  if e.data = maxInt32 then serveAccept heap a
  else if e.data < maxConcurrency then serveConn heap verify e.data e a
  else throw (.code .invalidData)

/-! ## The loop -/

/-- The process between two system calls. -/
structure Daemon where
  process : Process
  pending : List Event
  log : List Observation
  phase : Phase

def Daemon.start (p : Process) : Daemon where
  process := p
  pending := []
  log := []
  phase := .running

/-- The next event of the batch has been handled. -/
def Daemon.advance (d : Daemon) (events : List Event) :
    Served (List Observation) × Process → Daemon
  | (.ok obs, p) => { d with process := p, pending := events, log := d.log ++ obs }
  | (.error (.code reason), p) => { d with process := p, phase := .exited reason }
  | (.error (.fault fault), p) => { d with process := p, phase := .aborted fault }

/-- The loop of `main_protected`; no step where the label does not fit the state.
CSRC: main.c:238-401 -/
def Daemon.step (d : Daemon) : Label → Option Daemon
  | .waitFailed =>
    if d.phase = .running ∧ d.pending = [] then
      some { d with phase := .exited .epollWaitFailed }
    else none
  | .wait events =>
    if d.phase = .running ∧ d.pending = [] ∧ events.length ≤ maxEpollEvents then
      some { d with pending := events }
    else none
  | .handle answers =>
    match d.pending with
    | [] => none
    | e :: events =>
      if d.phase = .running then
        some (d.advance events ((serveEvent heap verify e answers).exec d.process))
      else none

/-! ## The end -/

/-- The connections' part of `free_all`.
CSRC: main.c:76-83 -/
def freeConns : List (Connection × Option ℕ) → Program Empty Unit
  | [] => pure ()
  | (conn, buf) :: conns => do
    closeOpen conn.fd
    free buf
    freeConns conns

/-- The keys' part of `free_all`.
CSRC: main.c:71-74 -/
def freeKeyArray : Program Empty Unit := do
  let p ← get
  if p.keysAt.isSome then do
    let w ← (p.resources.freeAll p.world : Crypto World)
    modify fun p => { p with world := w }
    free p.keysAt

/-- `free_all`.
CSRC: main.c:64-86 -/
def freeAll : Program Empty Unit := do
  let p ← get
  closeOpen p.epollFd
  closeOpen p.socketFd
  freeKeyArray
  freeConns (p.resources.conns.zip p.bufsAt)
  modify fun p => { Process.zero p.held with world := p.world, allocations := p.allocations }

end X509Server
