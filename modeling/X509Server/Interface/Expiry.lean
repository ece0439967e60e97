import Mathlib.Data.List.Count
import X509Server.Interface.Decisions
import X509Server.Library.Runs

/-!
# Expired keys

What the removal of expired keys should do to the keys that are still valid, for one
terminated connection and over a run, and the condition under which the loop does it.
-/

set_option autoImplicit false

namespace X509Server

open Runs

variable (verify : PubKey → Bytes → Bytes → Bool)

/-- The outcome of the loop over the keys: the server ends only if every key has expired,
and otherwise every unexpired key is there as often as before. -/
def KeysKept (now : ℤ) (s : KeyStore) : Served (KeyStore × Option Bytes) → Prop
  | .ok (s', _) => ∀ key : PubKey, now ≤ key.expiry → s'.loaded.count key = s.loaded.count key
  | .error (.code _) => ∀ key ∈ s.loaded, key.expiry < now
  | .error (.fault _) => False

/-- Some unexpired key accepts the message. -/
def Authentic (now : ℤ) (buf : Bytes) (keys : List PubKey) : Prop :=
  ∃ key ∈ keys, now ≤ key.expiry ∧ (key.authenticate verify buf).isSome = true

/-- The keys are all unexpired or all expired, or one of the unexpired ones accepts the
message. -/
def Settles (now : ℤ) (buf : Bytes) (keys : List PubKey) : Prop :=
  (∀ key ∈ keys, now ≤ key.expiry) ∨ (∀ key ∈ keys, key.expiry < now) ∨
    Authentic verify now buf keys

/-! ## Runs -/

/-- The message on which an event makes the server decide, if it makes it decide at all. -/
def decidedMessage (e : Event) (a : Answers) (r : Resources) : Option Bytes :=
  match handleReceive e.data e a r with
  | .ok (r', _) =>
    match r'.conns[e.data]? with
    | some conn =>
      if conn.fd > 0 ∧ (e.epollrdhup || e.epollhup) = true then some conn.contents else none
    | none => none
  | .error _ => none

/-- A step of the server that decides only on messages that settle. -/
def SettlingStep (s : Server) (l : Label) (t : Server) : Prop :=
  s.step verify l = some t ∧ ∀ a e events buf, l = .handle a → s.pending = e :: events →
    decidedMessage e a s.resources = some buf → Settles verify a.time buf s.resources.loaded

/-- The times at which terminated connections were handled. -/
def timesRead (log : List Observation) : List ℤ :=
  log.filterMap fun
    | .terminated _ now => some now
    | _ => none

/-- A key that was valid whenever the time was read is there as often as it was loaded, and
when the server has ended because of expired keys, every key had expired at a time that was
read. -/
structure RunKept (start : KeyStore) (s : Server) : Prop where
  kept : ∀ key : PubKey, (∀ now ∈ timesRead s.log, now ≤ key.expiry) →
    s.resources.loaded.count key = start.loaded.count key
  ended : ∀ now, s.phase = .exited (.allCertificatesExpired now) →
    ∀ key ∈ start.loaded, ∃ t ∈ now :: timesRead s.log, key.expiry < t

end X509Server
