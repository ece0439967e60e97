import X509Server.Interface.Sessions

/-!
# Connection counts

What `conns_total` should be, what an event of the listening socket should be able to rely
on, and the answers of the kernel with which the program does both.
-/

set_option autoImplicit false

namespace X509Server

variable (verify : PubKey → Bytes → Bytes → Bool)

/-- `conns_total` is the number of connections in use, and fits the table.  An event of the
listening socket is handled without a failed assertion exactly if `epoll_ctl` does not fail
for an accepted connection, and a refused connection changes nothing but the one that was
evicted for it. -/
structure Counted (s : Server) : Prop where
  total : s.resources.connsTotal = openCount s.resources.conns
  bounded : s.resources.connsTotal ≤ maxConcurrency
  served : ∀ a e, e.data = maxInt32 →
    ((∃ r obs, handleEvent verify e a s.resources = .ok (r, obs)) ↔
      (0 < a.accept → a.epollCtl = true))
  refused : ∀ a e r obs, e.data = maxInt32 → a.accept < 0 →
    handleEvent verify e a s.resources = .ok (r, obs) →
      ∀ i, ¬ s.resources.Evicts i → r.conns[i]? = s.resources.conns[i]?

/-- The answers with which a connection is refused by `accept`, or accepted and registered,
at a time `clock` can really show.  Where it is refused, nothing else is asked. -/
structure Registers (a : Answers) : Prop where
  accept_ne : a.accept ≠ 0
  registered : 0 < a.accept → a.epollCtl = true
  clock_lt : 0 < a.accept → a.clock < maxInt64

/-- A step in which an event of the listening socket gets such answers. -/
def CountingStep (s : Server) (l : Label) (t : Server) : Prop :=
  s.step verify l = some t ∧ ∀ a e events, l = .handle a → s.pending = e :: events →
    e.data = maxInt32 → Registers a

end X509Server
