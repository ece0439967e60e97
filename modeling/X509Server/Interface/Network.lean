import X509Server.Interface.Expiry
import X509Server.Interface.Kernel
import X509Server.Interface.Service
import X509Server.Library.Channel

/-!
# The network

The server and the kernel with the streams of the clients between them.  Clients write, end
their streams or lose their connection at any time, and what they write arrives whenever it
does, also between two calls of `recv` for one event.  `recv` takes what has arrived; it
returns 0 only behind the end of the stream, and fails with `EAGAIN` only while nothing is
there and nothing is known to be over.

`EPOLLRDHUP` and `EPOLLHUP` are reported only when the end of the stream or the loss of the
connection has arrived, and then `EPOLLIN` with them, as there is something for `recv` to
return.

The server's own steps are those of `AttributingStep`: no connection is evicted that has an
event later in the same batch, `accept` does not return descriptor 0, and no process that a
script has started outlives it with the descriptors it inherited.  Without that the server
handles events for connections they were not reported for.
-/

set_option autoImplicit false

namespace X509Server

open Channels

/-- What consecutive calls of `recv` for one event take from a channel, which moves on between
them.  Behind an error and behind the limit of the size there is no further call. -/
inductive Receives : Connection → Channel UInt8 → List RecvResult → Channel UInt8 → Prop where
  | moved {conn : Connection} {c d c' : Channel UInt8} {results : List RecvResult}
      {m : Move UInt8} (move : c.move m = some d) (rest : Receives conn d results c') :
      Receives conn c results c'
  | waits (conn : Connection) {c : Channel UInt8} (nothing : c.arrived = [])
      (runs : c.ended = false ∧ c.broken = false) : Receives conn c [] c
  | again (conn : Connection) {c : Channel UInt8} (results : List RecvResult)
      (nothing : c.arrived = []) (runs : c.ended = false ∧ c.broken = false) :
      Receives conn c (.failed true :: results) c
  | failed (conn : Connection) (c : Channel UInt8) (results : List RecvResult) :
      Receives conn c (.failed false :: results) c
  | ended (conn : Connection) {c : Channel UInt8} (results : List RecvResult)
      (drained : c.Drained) : Receives conn c (.data [] :: results) c
  | limit {conn : Connection} {c : Channel UInt8} {available : Bytes}
      (results : List RecvResult) (some_arrived : available ≠ [])
      (in_order : available <+: c.arrived)
      (large : maxScriptSize ≤
        (conn.append (available.take (conn.bufCap - conn.bufSize))).bufSize) :
      Receives conn c (.data available :: results)
        (c.take (available.take (conn.bufCap - conn.bufSize)).length)
  | taken {conn : Connection} {c c' : Channel UInt8} {available : Bytes}
      {results : List RecvResult} (some_arrived : available ≠ [])
      (in_order : available <+: c.arrived)
      (small :
        (conn.append (available.take (conn.bufCap - conn.bufSize))).bufSize < maxScriptSize)
      (rest : Receives (conn.append (available.take (conn.bufCap - conn.bufSize))).grow
        (c.take (available.take (conn.bufCap - conn.bufSize)).length) results c') :
      Receives conn c (.data available :: results) c'

/-- An event tells of an end only if there is one, and always together with `EPOLLIN`. -/
def Event.Tells (e : Event) (c : Channel UInt8) : Prop :=
  (e.epollrdhup || e.epollhup) = true →
    e.epollin = true ∧ (c.ended = true ∨ c.broken = true)

/-- The server and the kernel, and the stream of each connection, by the number the kernel
gives it when it is accepted. -/
structure Network where
  system : System
  channels : ℕ → Channel UInt8

def Network.start (store : KeyStore) : Network where
  system := .start store
  channels := fun _ => .empty

/-- The report that is handled next. -/
def System.next (s : System) : Option Report := s.reports.head?

inductive NetworkLabel where
  | moves (id : ℕ) (m : Move UInt8)
  | acts (l : SystemLabel)

variable (verify : PubKey → Bytes → Bytes → Bool)

/-- A channel moves, or the server and the kernel take a step that attributes events.  The
reports of a batch tell of ends that have arrived; handling a readable connection takes from
its channel, and nothing else does. -/
inductive Network.Step : Network → NetworkLabel → Network → Prop where
  | moves {n : Network} {id : ℕ} {m : Move UInt8} {c : Channel UInt8}
      (move : (n.channels id).move m = some c) :
      Network.Step n (.moves id m) { n with channels := Function.update n.channels id c }
  | waits {n : Network} {reports : List Report} {t : System}
      (step : AttributingStep verify n.system (.wait reports) t)
      (tells : ∀ report ∈ reports, ∀ id, report.origin = .connection id →
        report.event.Tells (n.channels id)) :
      Network.Step n (.acts (.wait reports)) { n with system := t }
  | receives {n : Network} {a : Answers} {survives : Bool} {t : System} {id : ℕ} {e : Event}
      {conn : Connection} {c : Channel UInt8}
      (step : AttributingStep verify n.system (.handle a survives) t)
      (next : n.system.next = some ⟨.connection id, e⟩) (readable : e.epollin = true)
      (slot : n.system.server.resources.conns[e.data]? = some conn)
      (taken : Receives conn (n.channels id) a.recvs c) :
      Network.Step n (.acts (.handle a survives))
        { system := t, channels := Function.update n.channels id c }
  | handles {n : Network} {a : Answers} {survives : Bool} {t : System}
      (step : AttributingStep verify n.system (.handle a survives) t)
      (next : ∀ id e, n.system.next = some ⟨.connection id, e⟩ → e.epollin = false) :
      Network.Step n (.acts (.handle a survives)) { n with system := t }
  | fails {n : Network} {t : System} (step : AttributingStep verify n.system .waitFailed t) :
      Network.Step n (.acts .waitFailed) { n with system := t }
  | releases {n : Network} {id : ℕ} {t : System}
      (step : AttributingStep verify n.system (.release id) t) :
      Network.Step n (.acts (.release id)) { n with system := t }

/-! ## What the service shows of the network -/

/-- The scripts that have been executed, with their numbers. -/
def executions (log : List Observation) : List (Bytes × ℕ) :=
  log.filterMap fun
    | .executed _ script n => some (script, n)
    | _ => none

/-- The stream of a client. -/
def speech (c : Channel UInt8) : Speech := ⟨c.sent, c.finished⟩

/-- The clients of the service are those of the network, it has judged at the times at which
terminated connections were handled, and it has executed the same scripts, in the same order
and with the same numbers. -/
structure Network.Shows (n : Network) (v : Service) : Prop where
  streams : ∀ id, v.streams id = speech (n.channels id)
  times : timesRead n.system.server.log = v.judgements.map Judgement.now
  executions : executions n.system.server.log = v.executions

/-! ## Decisions about clients -/

/-- A decision about what a client has sent: a script that a key valid at some decision accepts
it for, or none; and if every key was valid at every decision, none only if no key accepts it
for any script. -/
def Network.DecidesRightly (n : Network) (keys : List PubKey) (id : ℕ) : Option Bytes → Prop
  | some script => ∃ key ∈ keys, key.Accepts verify (n.channels id).sent script ∧
      ∃ now ∈ timesRead n.system.server.log, now ≤ key.expiry
  | none => (∀ now ∈ timesRead n.system.server.log, ∀ key ∈ keys, now ≤ key.expiry) →
      ∀ key ∈ keys, ∀ script, ¬ key.Accepts verify (n.channels id).sent script

/-- The clients that have been decided about, and the scripts: no client twice, each by
everything it has sent, as many as there were decisions, and executed in this order. -/
structure Network.Decided (n : Network) (keys : List PubKey)
    (decisions : List (ℕ × Option Bytes)) : Prop where
  once : (decisions.map Prod.fst).Nodup
  finished : ∀ d ∈ decisions, (n.channels d.1).finished = true
  rightly : ∀ d ∈ decisions, n.DecidesRightly verify keys d.1 d.2
  counted : (timesRead n.system.server.log).length = decisions.length
  executed : executions n.system.server.log = (decisions.filterMap Prod.snd).zipIdx 1

end X509Server
