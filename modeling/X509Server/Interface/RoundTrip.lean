import X509Server.Interface.Decisions
import X509Server.Interface.Sessions
import X509Server.Model.GenSig

/-!
# A message on its way

A connection whose peer sends one message and closes: how the stream comes out of `recv`, and
the runs of the server in which nothing but the stream happens to the connection.
-/

set_option autoImplicit false

namespace X509Server

/-- A `write` that takes at least one byte. -/
def WriteResult.Takes (w : WriteResult) : Prop := ∃ n, 0 < n ∧ w = .wrote n

/-- Consecutive results of `recv` take a stream from one end to the other.  A call returns some
of the bytes that are still to come, as many as have arrived and fit; it returns nothing only
behind the last one; and what has not arrived is waited for. -/
inductive Feeds : Connection → Bytes → List RecvResult → Bytes → Prop where
  | waits (conn : Connection) (stream : Bytes) : Feeds conn stream [] stream
  | again (conn : Connection) (stream : Bytes) (results : List RecvResult) :
      Feeds conn stream (.failed true :: results) stream
  | ended (conn : Connection) (results : List RecvResult) : Feeds conn [] (.data [] :: results) []
  | arrived {conn : Connection} {available behind : Bytes} {results : List RecvResult}
      {stream' : Bytes} (some_arrived : available ≠ [])
      (rest : Feeds ((conn.append (available.take (conn.bufCap - conn.bufSize))).grow)
        (available.drop (conn.bufCap - conn.bufSize) ++ behind) results stream') :
      Feeds conn (available ++ behind) (.data available :: results) stream'

/-- What an event makes of a stream. -/
def Received (conn : Connection) (e : Event) (a : Answers) (stream stream' : Bytes) : Prop :=
  if e.epollin then Feeds conn stream a.recvs stream' else stream' = stream

/-- A step of the server while the connection in `slot` is sent a stream: its own events are
fed from the stream and report no error and no end, and it is not evicted. -/
structure Delivering (verify : PubKey → Bytes → Bytes → Bool) (slot : ℕ) (p : Server × Bytes)
    (l : Label) (q : Server × Bytes) : Prop where
  step : p.1.step verify l = some q.1
  fed : ∀ a e events, l = .handle a → p.1.pending = e :: events → e.data = slot →
    (e.epollrdhup || e.epollhup || e.epollerr) = false ∧
      ∃ conn, p.1.resources.conns[slot]? = some conn ∧ Received conn e a p.2 q.2
  kept : ∀ a e events, l = .handle a → p.1.pending = e :: events → e.data = maxInt32 →
    ¬ p.1.resources.Evicts slot
  unfed : (∀ a e events, l = .handle a → p.1.pending = e :: events → e.data ≠ slot) →
    q.2 = p.2

/-- The scripts that are executed for the connection in a slot. -/
def scriptsOf (slot : ℕ) (log : List Observation) : List Bytes :=
  scriptsExecuted (log.filter fun o => o.slot = slot)

end X509Server
