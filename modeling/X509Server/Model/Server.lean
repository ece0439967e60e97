import X509Server.Model.Load

/-!
# The server loop of main.c

`main_protected` behind the loading of the keys.  The kernel's side of a step, what
`epoll_wait`, `accept`, `recv`, `clock` and `time` answer, is an argument.  `verify` stands
for `pub_key_verify` with a key, the data and the signature.

A step returns what it did to the connections next to the new state.  Nothing in the
program reads these observations; they are what the statements about whole runs are made
of.
-/

set_option autoImplicit false

namespace X509Server

/-! ## State (main.c:25-57) -/

def maxScriptSize : ℕ := 2 * 2 ^ 30
def maxEpollEvents : ℕ := 8
def maxConcurrency : ℕ := 128
def kilobyte : ℕ := 2 ^ 10
def maxInt32 : ℕ := 0x7fffffff
def maxInt64 : ℤ := 0x7fffffffffffffff

/-- `Connection`; `buf` is the memory behind the pointer, of which `bufCap` cells are
allocated.
CSRC: main.c:33-39 -/
structure Connection where
  fd : ℤ
  openTime : ℤ
  bufSize : ℕ
  bufCap : ℕ
  buf : Option (ℕ → UInt8)

/-- `Resources`.  `scriptN` is an `int` in the source; here it does not end at 2^31.
CSRC: main.c:48-57 -/
structure Resources extends KeyStore where
  scriptN : ℕ
  conns : List Connection
  connsTotal : ℕ

/-- `return -1`. -/
inductive Exit where
  /-- no certificate could be loaded -/
  | noCertificate
  /-- "Call to epoll_wait failed" -/
  | epollWaitFailed
  /-- "All certificates have expired, closing server", at the time that was read -/
  | allCertificatesExpired (now : ℤ)
  /-- "Epoll returned invalid data" -/
  | invalidData
  deriving DecidableEq, Repr

/-- A computation of the server loop. -/
abbrev Served (α : Type) := Guarded Exit α

/-- What a step does to the connection in a slot. -/
inductive Observation where
  | opened (slot : ℕ)
  | received (slot : ℕ) (chunk : Bytes)
  /-- a terminated connection is handled at the time that was read -/
  | terminated (slot : ℕ) (now : ℤ)
  /-- `exec_script` -/
  | executed (slot : ℕ) (script : Bytes) (n : ℕ)
  | closed (slot : ℕ)
  deriving DecidableEq, Repr

/-! ## Answers of the kernel -/

/-- `struct epoll_event`. -/
structure Event where
  data : ℕ
  epollin : Bool
  epollrdhup : Bool
  epollhup : Bool
  epollerr : Bool
  deriving DecidableEq, Repr

/-- A result of `recv`: the bytes that are there, of which it returns as many as fit, or an
error, which is `EAGAIN` or another one. -/
inductive RecvResult where
  | data (available : Bytes)
  | failed (again : Bool)
  deriving DecidableEq, Repr

/-- What the system calls answer while one event is handled. -/
structure Answers where
  accept : ℤ
  /-- `epoll_ctl` succeeds -/
  epollCtl : Bool
  clock : ℤ
  /-- the contents of a buffer that `malloc` returns -/
  memory : ℕ → UInt8
  /-- the results of consecutive calls of `recv`, and `EAGAIN` behind them -/
  recvs : List RecvResult
  time : ℤ

/-! ## Connections -/

section Connections

def connAt (conns : List Connection) (i : ℕ) : Served Connection :=
  match conns[i]? with
  | some conn => .ok conn
  | none => .error (.fault .outOfBounds)

/-- `conn->buf[0]` to `conn->buf[conn->buf_size - 1]`. -/
def Connection.contents (conn : Connection) : Bytes :=
  match conn.buf with
  | none => []
  | some cells => (List.range conn.bufSize).map cells

/-- `free_conn`.
CSRC: main.c:90-98 -/
def Resources.freeConn (r : Resources) (i : ℕ) : Served (Resources × List Observation) := do
  let conn ← connAt r.conns i
  let total ← usub r.connsTotal 1
  .ok ({ r with
    conns := r.conns.set i { conn with fd := 0, bufSize := 0, openTime := 0 }
    connsTotal := total }, [.closed i])

/-! ## The listening socket -/

/-- The scan for the oldest connection, from slot `i` on.
CSRC: main.c:251-259 -/
def scanOldest : List Connection → ℕ → ℤ → Option ℕ → Option ℕ
  | [], _, _, minConn => minConn
  | conn :: conns, i, minOpenTime, minConn =>
    if conn.fd > 0 ∧ conn.openTime < minOpenTime then
      scanOldest conns (i + 1) conn.openTime (some i)
    else scanOldest conns (i + 1) minOpenTime minConn

/-- The slot of the oldest connection. -/
def oldest (conns : List Connection) : Option ℕ := scanOldest conns 0 maxInt64 none

/-- A full table gives up its oldest connection.
CSRC: main.c:250-262 -/
def Resources.evict (r : Resources) : Served (Resources × List Observation) :=
  if r.connsTotal ≥ maxConcurrency then
    match oldest r.conns with
    | none => .error (.fault .assertFailed)
    | some i => r.freeConn i
  else .ok (r, [])

/-- The slot of a new connection; a buffer is kept from an earlier one.
CSRC: main.c:293-299 -/
def Connection.attach (conn : Connection) (a : Answers) : Connection :=
  match conn.buf with
  | none =>
    { fd := a.accept, openTime := a.clock, bufSize := 0, bufCap := kilobyte
      buf := some a.memory }
  | some _ => { conn with fd := a.accept, openTime := a.clock }

/-- The search for an unused slot.  Its last line is the assertion, which needs a slot and a
registration, unless the descriptor is 0.
CSRC: main.c:275-305 -/
def Resources.register (r : Resources) (a : Answers) : Served (Resources × List Observation) :=
  let r := { r with connsTotal := r.connsTotal + 1 }
  match r.conns.findIdx? fun conn => decide (conn.fd ≤ 0) with
  | none => do
    assertThat (decide (a.accept = 0))
    .ok (r, [])
  | some i => do
    let conn ← connAt r.conns i
    if a.epollCtl = false then do
      assertThat (decide (a.accept = 0))
      .ok (r, [])
    else .ok ({ r with conns := r.conns.set i (conn.attach a) }, [.opened i])

/-- An event of the listening socket.
CSRC: main.c:248-305 -/
def handleAccept (a : Answers) (r : Resources) : Served (Resources × List Observation) := do
  let (r, evicted) ← r.evict
  if a.accept < 0 then .ok (r, evicted)
  else do
    let (r, opened) ← r.register a
    .ok (r, evicted ++ opened)

/-! ## Receiving -/

/-- The bytes of one `recv` behind the ones that are there.
CSRC: main.c:314, main.c:326 -/
def Connection.append (conn : Connection) (chunk : Bytes) : Connection :=
  { conn with
    bufSize := conn.bufSize + chunk.length
    buf := conn.buf.map fun cells j =>
      if conn.bufSize ≤ j ∧ j < conn.bufSize + chunk.length then
        chunk.getD (j - conn.bufSize) 0
      else cells j }

/-- A full buffer is doubled.
CSRC: main.c:333-336 -/
def Connection.grow (conn : Connection) : Connection :=
  if conn.bufSize ≥ conn.bufCap then { conn with bufCap := conn.bufCap * 2 } else conn

/-- What the receive loop leaves: the connection, whether it is closed, and the chunks. -/
structure Reception where
  conn : Connection
  dropped : Bool
  chunks : List Bytes

/-- The receive loop.  `EAGAIN` and `EWOULDBLOCK` are one number on Linux.
CSRC: main.c:312-337 -/
def recvLoop : List RecvResult → Connection → Served Reception
  | [], conn => .ok ⟨conn, false, []⟩
  | .failed again :: _, conn => .ok ⟨conn, !again, []⟩
  | .data available :: results, conn => do
    let room ← usub conn.bufCap conn.bufSize
    let chunk := available.take room
    if chunk = [] then .ok ⟨conn, false, []⟩
    else if conn.buf.isNone then .error (.fault .outOfBounds)
    else
      let conn := conn.append chunk
      if conn.bufSize ≥ maxScriptSize then .ok ⟨conn, true, [chunk]⟩
      else do
        let rest ← recvLoop results conn.grow
        .ok { rest with chunks := chunk :: rest.chunks }

/-- The first part of a connection's event.
CSRC: main.c:311-338 -/
def handleReceive (slot : ℕ) (e : Event) (a : Answers) (r : Resources) :
    Served (Resources × List Observation) :=
  if e.epollin then do
    let conn ← connAt r.conns slot
    let reception ← recvLoop a.recvs conn
    let r := { r with conns := r.conns.set slot reception.conn }
    let obs := reception.chunks.map (Observation.received slot)
    if reception.dropped then do
      let (r, closed) ← r.freeConn slot
      .ok (r, obs ++ closed)
    else .ok (r, obs)
  else .ok (r, [])

end Connections

/-! ## Authentication -/

section Authentication

variable (verify : PubKey → Bytes → Bytes → Bool)

/-- The signature and the script, for the signature size of a key; the buffer is read only
where it is long enough for both.
CSRC: main.c:373-377 -/
def PubKey.readSplit (key : PubKey) (buf : Bytes) : Served (Option (Bytes × Bytes)) :=
  if key.expSigSize + 1 ≤ buf.length then do
    let b ← rawByte buf key.expSigSize
    if b = 10 then do
      let sig ← rawRange buf 0 key.expSigSize
      let script ← rawRange buf (key.expSigSize + 1) (buf.length - (key.expSigSize + 1))
      .ok (some (sig, script))
    else .ok none
  else .ok none

/-- The script, if the key verifies it.
CSRC: main.c:373-378 -/
def PubKey.readScript (key : PubKey) (buf : Bytes) : Served (Option Bytes) := do
  match ← key.readSplit buf with
  | some (sig, script) => .ok (if verify key script sig then some script else none)
  | none => .ok none

/-- The loop over the keys.  `bound` is the number of keys in front of the loop; a removal
leaves it and the index as they are.
CSRC: main.c:357-386 -/
def authLoop (now : ℤ) (buf : Bytes) (bound : ℕ) :
    ℕ → ℕ → KeyStore → Served (KeyStore × Option Bytes)
  | 0, _, _ => .error (.fault .outOfFuel)
  | fuel + 1, i, s =>
    if i < bound then do
      let key ← slotAt s.keys i
      if now > key.expiry then
        if s.keysSize > 1 then do
          let s ← s.swapRemove i
          authLoop now buf bound fuel i s
        else .error (.code (.allCertificatesExpired now))
      else
        match ← key.readScript verify buf with
        | some script => .ok (s, some script)
        | none => authLoop now buf bound fuel (i + 1) s
    else .ok (s, none)

/-- The keys behind the loop, and the script if it is authentic.
CSRC: main.c:357-386 -/
def authenticate (now : ℤ) (buf : Bytes) (s : KeyStore) : Served (KeyStore × Option Bytes) :=
  authLoop verify now buf s.keysSize (s.keysSize + s.keysSize + 1) 0 s

/-- The second part of a connection's event.
CSRC: main.c:340-392 -/
def handleTermination (slot : ℕ) (e : Event) (a : Answers) (r : Resources) :
    Served (Resources × List Observation) := do
  let conn ← connAt r.conns slot
  if conn.fd > 0 ∧ (e.epollrdhup || e.epollhup) = true then do
    let (keys, script) ← authenticate verify a.time conn.contents r.toKeyStore
    match script with
    | some script => do
      let r := { r with toKeyStore := keys, scriptN := r.scriptN + 1 }
      let n := r.scriptN
      let (r, closed) ← r.freeConn slot
      .ok (r, .terminated slot a.time :: .executed slot script n :: closed)
    | none => do
      let r := { r with toKeyStore := keys }
      let (r, closed) ← r.freeConn slot
      .ok (r, .terminated slot a.time :: closed)
  else .ok (r, [])

/-- The third part of a connection's event.
CSRC: main.c:393-395 -/
def handleError (slot : ℕ) (e : Event) (r : Resources) :
    Served (Resources × List Observation) := do
  let conn ← connAt r.conns slot
  if conn.fd > 0 ∧ e.epollerr = true then r.freeConn slot else .ok (r, [])

/-- An event of a connection.
CSRC: main.c:306-395 -/
def handleConn (slot : ℕ) (e : Event) (a : Answers) (r : Resources) :
    Served (Resources × List Observation) := do
  let conn ← connAt r.conns slot
  assertThat (decide (conn.fd > 0))
  let (r, received) ← handleReceive slot e a r
  let (r, terminated) ← handleTermination verify slot e a r
  let (r, closed) ← handleError slot e r
  .ok (r, received ++ terminated ++ closed)

/-- One event of a batch.
CSRC: main.c:246-399 -/
def handleEvent (e : Event) (a : Answers) (r : Resources) :
    Served (Resources × List Observation) :=
  if e.data = maxInt32 then handleAccept a r
  else if e.data < maxConcurrency then handleConn verify e.data e a r
  else .error (.code .invalidData)

/-! ## The loop -/

/-- Whether the process is in the loop, has left it, or has failed an assertion. -/
inductive Phase where
  | running
  | exited (reason : Exit)
  | aborted (fault : Fault)
  deriving DecidableEq, Repr

/-- The server between two system calls: its resources, the events of the batch that are
still to be handled, and everything it has done. -/
structure Server where
  resources : Resources
  pending : List Event
  log : List Observation
  phase : Phase

/-- The server with the keys it has loaded.
CSRC: main.c:214-236, main.c:407 -/
def Server.start (s : KeyStore) : Server where
  resources :=
    { toKeyStore := s
      scriptN := 0
      conns := List.replicate maxConcurrency
        { fd := 0, openTime := 0, bufSize := 0, bufCap := 0, buf := none }
      connsTotal := 0 }
  pending := []
  log := []
  phase := if s.keysSize = 0 then .exited .noCertificate else .running

/-- A step: `epoll_wait` fails or returns a batch, or the next event is handled. -/
inductive Label where
  | waitFailed
  | wait (events : List Event)
  | handle (answers : Answers)

/-- The next event of the batch has been handled. -/
def Server.advance (s : Server) (events : List Event) :
    Served (Resources × List Observation) → Server
  | .ok (r, obs) => { s with resources := r, pending := events, log := s.log ++ obs }
  | .error (.code reason) => { s with phase := .exited reason }
  | .error (.fault fault) => { s with phase := .aborted fault }

/-- The loop of `main_protected`; no step where the label does not fit the state.
CSRC: main.c:238-401 -/
def Server.step (s : Server) : Label → Option Server
  | .waitFailed =>
    if s.phase = .running ∧ s.pending = [] then
      some { s with phase := .exited .epollWaitFailed }
    else none
  | .wait events =>
    if s.phase = .running ∧ s.pending = [] ∧ events.length ≤ maxEpollEvents then
      some { s with pending := events }
    else none
  | .handle answers =>
    match s.pending with
    | [] => none
    | e :: events =>
      if s.phase = .running then
        some (s.advance events (handleEvent verify e answers s.resources))
      else none

end Authentication

end X509Server
