import X509Server.Interface.Sessions
import X509Server.Library.Queue

/-!
# The order of eviction

The table is meant as a queue: what a full table gives up is the connection that has been
open for longest.  The server orders its connections by the processor time that `clock`
showed when they were accepted, and connections of one tick by their slots.  The order in
which they really were accepted is in the observations of the run.
-/

set_option autoImplicit false

namespace X509Server

open Queues

/-- The slots in the order in which their connections were accepted, behind one more
observation. -/
def enqueue (queue : List ℕ) : Observation → List ℕ
  | .opened slot => arrive queue slot
  | .closed slot => leave queue slot
  | .received _ _ => queue
  | .terminated _ _ => queue
  | .executed _ _ _ => queue

/-- The slots in the order in which their connections were accepted. -/
def acceptanceOrder (log : List Observation) : List ℕ := log.foldl enqueue []

/-- The time of a connection in use. -/
def Connection.stamp (conn : Connection) : Option ℤ :=
  if 0 < conn.fd then some conn.openTime else none

/-- The times of the connections in use, by their slots. -/
def stamps (conns : List Connection) (i : ℕ) : Option ℤ := conns[i]?.bind Connection.stamp

/-- The connections in use, the one accepted earliest first. -/
def Server.acceptedFirst (s : Server) : List ℕ :=
  (acceptanceOrder s.log).filter fun i => (stamps s.resources.conns i).isSome

variable (verify : PubKey → Bytes → Bytes → Bool)

/-- Whenever an event of the listening socket is handled, a full table closes a connection,
and a connection that is closed is the one accepted earliest of all that are open. -/
def Server.EvictsEarliest (s : Server) : Prop :=
  ∀ e a r obs, e.data = maxInt32 → handleEvent verify e a s.resources = .ok (r, obs) →
    (s.resources.connsTotal ≥ maxConcurrency → ∃ i, .closed i ∈ obs) ∧
    ∀ i, .closed i ∈ obs → s.acceptedFirst.head? = some i

/-- If the table is full, no connection in a slot below the one that was accepted earliest
shows the same time as that one, unless it is a time at which the scan sees no connection. -/
def Server.Untied (s : Server) : Prop :=
  s.resources.connsTotal ≥ maxConcurrency → ∀ i later time, s.acceptedFirst = i :: later →
    stamps s.resources.conns i = some time → time < maxInt64 →
      ∀ j ∈ later, j < i → stamps s.resources.conns j ≠ some time

/-- What `clock` answers while an event is handled. -/
def Label.clock : Label → Option ℤ
  | .waitFailed => none
  | .wait _ => none
  | .handle answers => some answers.clock

/-- What `clock` answers in the course of a run never decreases. -/
def ClockAscends (labels : List Label) : Prop :=
  (labels.filterMap Label.clock).Pairwise (· ≤ ·)

end X509Server
