import X509Server.Interface.Decisions

/-!
# The service

What the server is for, without slots, buffers, events and batches: every client has a stream,
which grows until the client finishes it, and a finished stream may be judged, once and as a
whole.  A script is executed for it if a trusted key that has not expired accepts the stream.
-/

set_option autoImplicit false

namespace X509Server

/-- What a client has sent so far, and whether that is all. -/
structure Speech where
  sent : Bytes
  finished : Bool
  deriving DecidableEq, Repr

/-- A client goes on, unless it has finished. -/
structure Speech.Continues (s t : Speech) : Prop where
  sent : s.sent <+: t.sent
  finished : s.finished = true → t = s

/-- A judgement: the client, its whole stream, the time, and the script that was executed. -/
structure Judgement where
  client : ℕ
  message : Bytes
  now : ℤ
  script : Option Bytes
  deriving DecidableEq, Repr

structure Service where
  streams : ℕ → Speech
  judgements : List Judgement

def Service.start : Service where
  streams := fun _ => ⟨[], false⟩
  judgements := []

variable (verify : PubKey → Bytes → Bytes → Bool) (keys : List PubKey)

/-- A judgement is right: a script that is executed is one that an unexpired key accepts; and
if none is, there is no such script, unless a key had expired at an earlier judgement. -/
def Judgement.Right (earlier : List Judgement) (j : Judgement) : Prop :=
  match j.script with
  | some script => ∃ key ∈ keys, j.now ≤ key.expiry ∧ key.Accepts verify j.message script
  | none =>
    (∀ key ∈ keys, j.now ≤ key.expiry → ∀ script, ¬ key.Accepts verify j.message script) ∨
      ∃ before ∈ earlier, ∃ key ∈ keys, key.expiry < before.now

inductive ServiceLabel where
  | speaks (client : ℕ) (speech : Speech)
  | judges (j : Judgement)

/-- A client goes on, or its finished stream is judged for the first time. -/
inductive Service.Step : Service → ServiceLabel → Service → Prop where
  | speaks {v : Service} {client : ℕ} {speech : Speech}
      (continues : (v.streams client).Continues speech) :
      Service.Step v (.speaks client speech)
        { v with streams := Function.update v.streams client speech }
  | judges {v : Service} {j : Judgement} (whole : v.streams j.client = ⟨j.message, true⟩)
      (first : j.client ∉ v.judgements.map Judgement.client)
      (right : j.Right verify keys v.judgements) :
      Service.Step v (.judges j) { v with judgements := v.judgements ++ [j] }

/-- The scripts that are executed, numbered from 1. -/
def Service.executions (v : Service) : List (Bytes × ℕ) :=
  (v.judgements.filterMap Judgement.script).zipIdx 1

end X509Server
