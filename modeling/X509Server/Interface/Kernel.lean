import X509Server.Interface.Sessions

/-!
# The kernel's connections

The kernel knows a connection by its open file description, the server by a slot.  An event
carries the slot under which the description was registered, and nothing else.  Here every
accepted connection has a number, and the kernel keeps for each slot the number of the
connection whose descriptor it holds, and the registrations of epoll.

A registration ends when no process holds the description any more.  The descriptors are
inherited by the process that runs a script, so a process that outlives the script keeps the
registrations of the connections that were open then.
-/

set_option autoImplicit false

namespace X509Server

open Runs

/-- What an event is reported for. -/
inductive Origin where
  | listener
  | connection (id : ℕ)
  deriving DecidableEq, Repr

/-- An event together with what it is reported for, which the server does not see. -/
structure Report where
  origin : Origin
  event : Event
  deriving DecidableEq, Repr

/-- The kernel's side: the connection in each slot, the registrations with their data, and
the connections that another process holds as well. -/
structure Kernel where
  nextId : ℕ
  owner : ℕ → Option ℕ
  registered : List (ℕ × ℕ)
  inherited : List ℕ

def Kernel.start : Kernel where
  nextId := 0
  owner := fun _ => none
  registered := []
  inherited := []

/-- The numbers of the connections in the table. -/
def Kernel.owned (k : Kernel) : List ℕ := (List.range maxConcurrency).filterMap k.owner

/-- What the kernel does when the server does something.  `survives` says that a process
started by a script outlives it and still has the descriptors it inherited; one that has
closed them does not count. -/
def Kernel.observe (k : Kernel) (survives : Bool) : Observation → Kernel
  | .opened slot =>
    { k with
      nextId := k.nextId + 1
      owner := fun i => if i = slot then some k.nextId else k.owner i
      registered := (k.nextId, slot) :: k.registered }
  | .closed slot =>
    { k with
      owner := fun i => if i = slot then none else k.owner i
      registered := k.registered.filter fun r =>
        r.1 ∈ k.inherited ∨ k.owner slot ≠ some r.1 }
  | .executed _ _ _ =>
    { k with inherited := if survives then k.owned ++ k.inherited else k.inherited }
  | .received _ _ => k
  | .terminated _ _ => k

/-- The last process but the server that holds a connection ends. -/
def Kernel.release (k : Kernel) (id : ℕ) : Kernel :=
  { k with
    inherited := k.inherited.filter fun i => i ≠ id
    registered := k.registered.filter fun r => r.1 ≠ id ∨ id ∈ k.owned }

/-- A report `epoll_wait` may return: an event of the listening socket, or one of a
registered connection, with the data it was registered with. -/
def Kernel.Admits (k : Kernel) (report : Report) : Prop :=
  match report.origin with
  | .listener => report.event.data = maxInt32
  | .connection id => (id, report.event.data) ∈ k.registered

instance (k : Kernel) (report : Report) : Decidable (k.Admits report) := by
  unfold Kernel.Admits
  split <;> infer_instance

/-! ## The server and the kernel -/

/-- The server, the kernel, and the reports of the batch that are still to be handled. -/
structure System where
  server : Server
  kernel : Kernel
  reports : List Report

def System.start (store : KeyStore) : System where
  server := .start store
  kernel := .start
  reports := []

inductive SystemLabel where
  | waitFailed
  | wait (reports : List Report)
  | handle (answers : Answers) (survives : Bool)
  | release (id : ℕ)

/-- A step of the server, which the kernel follows, or of another process.  `epoll_wait`
reports a registration at most once. -/
def System.step (verify : PubKey → Bytes → Bytes → Bool) (s : System) :
    SystemLabel → Option System
  | .waitFailed => (s.server.step verify .waitFailed).map fun t => { s with server := t }
  | .wait reports =>
    if (∀ report ∈ reports, s.kernel.Admits report) ∧ (reports.map Report.origin).Nodup then
      (s.server.step verify (.wait (reports.map Report.event))).map fun t =>
        { s with server := t, reports }
    else none
  | .handle answers survives =>
    (s.server.step verify (.handle answers)).map fun t =>
      { server := t
        kernel := (t.log.drop s.server.log.length).foldl (fun k o => k.observe survives o) s.kernel
        reports := s.reports.tail }
  | .release id => some { s with kernel := s.kernel.release id }

/-! ## Attribution -/

/-- The next event of the batch, if it is one of a connection, carries the slot of that very
connection, which is in use; and whatever its handling does is about that slot. -/
def System.Attributed (verify : PubKey → Bytes → Bytes → Bool) (s : System) : Prop :=
  s.server.phase = .running → ∀ id event reports,
    s.reports = ⟨.connection id, event⟩ :: reports →
      (∃ events, s.server.pending = event :: events) ∧
      s.kernel.owner event.data = some id ∧
      (∃ conn, s.server.resources.conns[event.data]? = some conn ∧ 0 < conn.fd) ∧
      ∀ a r obs, handleEvent verify event a s.server.resources = .ok (r, obs) →
        ∀ o ∈ obs, o.slot = event.data

/-- A step after which no process that a script has started holds the descriptors it
inherited, and in which an event of the listening socket evicts no connection with an event
later in the batch and `accept` does not return descriptor 0. -/
def AttributingStep (verify : PubKey → Bytes → Bytes → Bool) (s : System) (l : SystemLabel)
    (t : System) : Prop :=
  s.step verify l = some t ∧ ∀ a survives, l = .handle a survives →
    survives = false ∧
      ∀ report reports, s.reports = report :: reports → report.event.data = maxInt32 →
        a.accept ≠ 0 ∧
          ∀ i, s.server.resources.Evicts i → ∀ later ∈ reports, later.event.data ≠ i

end X509Server
