import X509Server.Model.Server

/-!
# Decisions

What it means for a key to accept a message, and for the handling of a terminated
connection to execute the right script or none.
-/

set_option autoImplicit false

namespace X509Server

variable (verify : PubKey → Bytes → Bytes → Bool)

/-- The signature and the script of a message, for the signature size of a key. -/
def PubKey.split (key : PubKey) (buf : Bytes) : Option (Bytes × Bytes) :=
  if key.expSigSize + 1 ≤ buf.length ∧ buf[key.expSigSize]? = some 10 then
    some (buf.take key.expSigSize, buf.drop (key.expSigSize + 1))
  else none

/-- The script of a message, if the key verifies it. -/
def PubKey.authenticate (key : PubKey) (buf : Bytes) : Option Bytes :=
  match key.split buf with
  | some (sig, script) => if verify key script sig then some script else none
  | none => none

/-- The message is a signature of the key's size, a newline and the script, and the key
verifies the signature. -/
def PubKey.Accepts (key : PubKey) (message script : Bytes) : Prop :=
  ∃ sig, message = sig ++ 10 :: script ∧ sig.length = key.expSigSize ∧
    verify key script sig = true

/-- The scripts that are executed. -/
def scriptsExecuted (log : List Observation) : List Bytes :=
  log.filterMap fun
    | .executed _ script _ => some script
    | _ => none

/-- The right outcome of a terminated connection: one script, which an unexpired key
accepts, or none, if there is no such script; and the server ends only in the second case. -/
def DecidesRightly (now : ℤ) (message : Bytes) (keys : List PubKey) :
    Served (Resources × List Observation) → Prop
  | .ok (_, obs) =>
    (∃ key ∈ keys, now ≤ key.expiry ∧
      ∃ script, key.Accepts verify message script ∧ scriptsExecuted obs = [script]) ∨
    (scriptsExecuted obs = [] ∧
      ∀ key ∈ keys, now ≤ key.expiry → ∀ script, ¬ key.Accepts verify message script)
  | .error (.code _) =>
    ∀ key ∈ keys, now ≤ key.expiry → ∀ script, ¬ key.Accepts verify message script
  | .error (.fault _) => False

end X509Server
