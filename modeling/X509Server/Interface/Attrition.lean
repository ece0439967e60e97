import X509Server.Interface.Expiry
import X509Server.Interface.Decisions

/-!
# What expired keys cost

The loop over the keys exchanges an expired key with the last one in use and goes on up to
the number of keys it started with, so it meets every removed key again and removes a key in
use for it.  Here is what that comes to: for one message that nobody has signed, and for a
whole run.
-/

set_option autoImplicit false

namespace X509Server

/-- How many of the keys have expired. -/
def expiredCount (now : ℤ) (keys : List PubKey) : ℕ :=
  keys.countP fun key => decide (key.expiry < now)

/-- What a message that no unexpired key accepts does to the keys.  Every expired key takes
an unexpired one with it; if that leaves none, the server ends. -/
def Attrition (now : ℤ) (s : KeyStore) : Served (KeyStore × Option Bytes) → Prop
  | .ok (t, script) => script = none ∧
      t.keysSize + 2 * expiredCount now s.loaded = s.keysSize ∧ 0 < t.keysSize ∧
      (∀ key ∈ t.loaded, now ≤ key.expiry) ∧ t.loaded.Subperm s.loaded
  | .error (.code reason) => reason = .allCertificatesExpired now ∧
      s.keysSize ≤ 2 * expiredCount now s.loaded
  | .error (.fault _) => False

/-- The server against the keys it started with, for a time at or behind all that were
read: no more keys are gone than twice the number that have expired, a running server has
one, and if it has ended for want of keys, half of them or more had expired. -/
structure Outlasts (latest : ℤ) (start : KeyStore) (s : Server) : Prop where
  left : start.keysSize ≤ s.resources.keysSize + 2 * expiredCount latest start.loaded
  pos : s.phase = .running → 0 < s.resources.keysSize
  ended : ∀ now, s.phase = .exited (.allCertificatesExpired now) → now ≤ latest →
    start.keysSize ≤ 2 * expiredCount latest start.loaded

end X509Server
