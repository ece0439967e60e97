import X509Server.Library.Runs
import X509Server.Model.Server

/-!
# Sessions

The observations of a run tell what each slot has received since it was last opened.  From
that, and from what the server had loaded at its start, they tell which executions of a
script are authentic.
-/

set_option autoImplicit false

namespace X509Server

open Runs

/-- The slot an observation is about. -/
def Observation.slot : Observation → ℕ
  | .opened slot => slot
  | .received slot _ => slot
  | .terminated slot _ => slot
  | .executed slot _ _ => slot
  | .closed slot => slot

/-- The session in slot `i` behind one more observation. -/
def observe (i : ℕ) (session : Option Bytes) : Observation → Option Bytes
  | .opened slot => if slot = i then some [] else session
  | .received slot chunk => if slot = i then session.map (· ++ chunk) else session
  | .terminated _ _ => session
  | .executed _ _ _ => session
  | .closed slot => if slot = i then none else session

/-- The bytes received by the connection in slot `i` since it was accepted, if there is one. -/
def received (i : ℕ) (log : List Observation) : Option Bytes :=
  log.foldl (observe i) none

/-- The number of connections in use. -/
def openCount (conns : List Connection) : ℕ := conns.countP fun conn => decide (0 < conn.fd)

/-- The slot whose connection a full table gives up. -/
def Resources.Evicts (r : Resources) (i : ℕ) : Prop :=
  r.connsTotal ≥ maxConcurrency ∧ oldest r.conns = some i

/-! ## Authentic executions -/

/-- `read_cert` accepted the key in its turn while the server was started. -/
def AcceptedAtStart (env : OpenSsl) (memory : ℕ → PubKey) (key : PubKey) : Source → Prop
  | .directory entries => ∃ before entry after s w slot w',
      entries = before ++ entry :: after ∧
        loadDirectory env memory before (.malloc memory) .initial = .ok (s, w) ∧
        entry.name ≠ "." ∧ entry.name ≠ ".." ∧
        (s.reserve memory).keys[s.keysSize]? = some slot ∧
        readCert env entry.file slot w = .ok (true, key, w')
  | .file file => ∃ slot w', (KeyStore.malloc memory).keys[0]? = some slot ∧
      readCert env file slot .initial = .ok (true, key, w')

/-- A script is executed only directly behind the termination of a connection that has
received a signature, a newline and the script, where one of the keys accepts the signature
and had not expired at the time that was read. -/
def Authenticated (verify : PubKey → Bytes → Bytes → Bool) (accepted : PubKey → Prop)
    (before : List Observation) : Observation → Prop
  | .executed slot script _ => ∃ earlier now sig key,
      before = earlier ++ [.terminated slot now] ∧
        received slot before = some (sig ++ 10 :: script) ∧ accepted key ∧
        sig.length = key.expSigSize ∧ verify key script sig = true ∧ now ≤ key.expiry
  | _ => True

end X509Server
