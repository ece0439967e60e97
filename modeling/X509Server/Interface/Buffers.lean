import X509Server.Interface.Sessions

/-!
# Receive buffers

What the buffer of a slot should look like whenever `recv` is about to be called or the
server waits for events, and when two states of the server differ only in bytes that no
connection has sent.
-/

set_option autoImplicit false

namespace X509Server

/-- The buffer of a slot, with what the connection in it has received: it has not been
allocated, or has a capacity of 1024, doubled a number of times and at most `2 ^ 31`; a slot
that is not in use has received nothing, and one that is has room for more. -/
structure Represents (session : Option Bytes) (conn : Connection) : Prop where
  capacity : conn.buf = none ∨ ∃ k, conn.bufCap = 1024 * 2 ^ k ∧ conn.bufCap ≤ 2 ^ 31
  free : conn.fd ≤ 0 → conn.bufSize = 0
  allocated : 0 < conn.fd → conn.buf.isSome = true
  room : 0 < conn.fd → conn.bufSize < min conn.bufCap maxScriptSize
  contents : 0 < conn.fd → session = some conn.contents

/-- Connections that differ only in the bytes behind the ones they have received. -/
structure Connection.Alike (conn conn' : Connection) : Prop where
  fd : conn.fd = conn'.fd
  openTime : conn.openTime = conn'.openTime
  bufSize : conn.bufSize = conn'.bufSize
  bufCap : conn.bufCap = conn'.bufCap
  allocated : conn.buf.isSome = conn'.buf.isSome
  contents : conn.contents = conn'.contents

/-- States that differ only in such bytes. -/
structure Resources.Alike (r r' : Resources) : Prop where
  keys : r.toKeyStore = r'.toKeyStore
  scriptN : r.scriptN = r'.scriptN
  connsTotal : r.connsTotal = r'.connsTotal
  conns : List.Forall₂ Connection.Alike r.conns r'.conns

structure Server.Alike (s s' : Server) : Prop where
  resources : s.resources.Alike s'.resources
  pending : s.pending = s'.pending
  log : s.log = s'.log
  phase : s.phase = s'.phase

variable (verify : PubKey → Bytes → Bytes → Bool)

/-- Every slot represents what its connection has received; so it does at every call of
`recv`, which is where the loop stands behind any results; and the bytes behind what has been
received play no part in any step. -/
structure BuffersKept (s : Server) : Prop where
  slots : ∀ i conn, s.resources.conns[i]? = some conn → Represents (received i s.log) conn
  calls : ∀ i conn, s.resources.conns[i]? = some conn → 0 < conn.fd →
    ∀ results, ∃ reception, recvLoop results conn = .ok reception ∧
      (reception.dropped = false →
        Represents ((received i s.log).map fun session => session ++ reception.chunks.flatten)
          reception.conn)
  alike : ∀ s', s.Alike s' → ∀ l t, s.step verify l = some t →
    ∃ t', s'.step verify l = some t' ∧ t.Alike t'

end X509Server
