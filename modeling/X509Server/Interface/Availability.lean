import X509Server.Interface.Attrition
import X509Server.Interface.Network

/-!
# What stops the server

A server that waits for anybody's scripts should not be stopped by them.  These are the
reasons for which a step ends it, and the steps in which there is none.

They are the reasons as long as events are attributed (`AttributingStep`), since an event for
a slot that is not in use fails `assert(conn->fd > 0)`, and as long as `clock` stays below
its maximum, since the eviction finds no connection that was opened then.
-/

set_option autoImplicit false

namespace X509Server

variable (verify : PubKey → Bytes → Bytes → Bool)

/-- The next event is one of the listening socket, and `accept` returns a connection. -/
def System.Accepts (s : System) (a : Answers) : Prop :=
  ∃ report, s.next = some report ∧ report.event.data = maxInt32 ∧ 0 < a.accept

/-- A step as in `AttributingStep`, in which `clock` shows a time below the maximum when a
connection is accepted. -/
def ServingStep (s : System) (l : SystemLabel) (t : System) : Prop :=
  AttributingStep verify s l t ∧
    ∀ a survives, l = .handle a survives → s.Accepts a → a.clock < maxInt64

/-- Why a step ends the server, and how. -/
inductive System.Stops (s : System) : SystemLabel → Phase → Prop where
  /-- "Call to epoll_wait failed" -/
  | waitFailed : s.Stops .waitFailed (.exited .epollWaitFailed)
  /-- "Adding connection to epoll_ctl failed", and with it `assert(conn_fd == 0)` -/
  | unregistered {a : Answers} {survives : Bool} {report : Report} (next : s.next = some report)
      (listener : report.origin = .listener) (accepted : 0 < a.accept)
      (failed : a.epollCtl = false) :
      s.Stops (.handle a survives) (.aborted .assertFailed)
  /-- "All certificates have expired, closing server" -/
  | expired {a : Answers} {survives : Bool} {report : Report} {id : ℕ} {message : Bytes}
      (next : s.next = some report) (connection : report.origin = .connection id)
      (ended : decidedMessage report.event a s.server.resources = some message)
      (unsigned : ¬ Authentic verify a.time message s.server.resources.loaded)
      (half : s.server.resources.keysSize ≤
        2 * expiredCount a.time s.server.resources.loaded) :
      s.Stops (.handle a survives) (.exited (.allCertificatesExpired a.time))

/-- A step as in `ServingStep`, in which neither `epoll_wait` nor `epoll_ctl` fails, and
which shows no time behind `latest`. -/
def UndisturbedStep (latest : ℤ) (s : System) (l : SystemLabel) (t : System) : Prop :=
  ServingStep verify s l t ∧ l ≠ .waitFailed ∧ ∀ a survives, l = .handle a survives →
    (s.Accepts a → a.epollCtl = true) ∧ a.time ≤ latest

end X509Server
