import X509Server.Interface.Wedge
import X509Server.Model.Shell

/-!
# A script on its way to bash

What should hold of `exec_script` and the processes behind it in every order of their steps,
and what bash has to do for `exec_script` to return.
-/

set_option autoImplicit false

namespace X509Server

open Runs

variable {page slots : ℕ}

namespace Shell

/-- What is read from the pipe is the script, in order, and all of it before the end is told
unless a `write` has failed.  A `write` is never to a pipe without a reader, which would kill
the server.  Once the parent waits, bash does not wait for the end in vain.  And when
`exec_script` has returned it has given up both ends of the pipe and has no child left. -/
structure Fed (script : Bytes) (s : Shell page slots) : Prop where
  in_order : s.pipe.taken <+: script
  whole : s.ended = true → s.failed = false → s.pipe.taken = script
  reader : ∀ i, s.parent = .writing i → 0 < s.readEnds
  told : s.parent = .waitpid → s.child = .bash → 0 < s.childReads → s.pipe.waiting = [] →
    ∃ t, s.step script .childEnds = some t
  released : s.parent = .returned → s.parentReads = false ∧ s.parentWrites = false ∧
    (s.child = .unborn ∨ s.child = .exited)

/-! ## Patient shells -/

/-- What a shell does that is started, reads its input itself and exits only behind the end of
it: every read returns something. -/
def Patient (s : Shell page slots) : ShellLabel → Prop
  | .exec (.dup2 ok) => ok = true
  | .exec (.childReads n) => 0 < n ∧ s.pipe.waiting ≠ []
  | .exec .childExits => s.ended = true
  | .exec .childForks => False
  | .exec .childDrops => False
  | .childEnds => s.ended = false
  | _ => True

/-- A step in which bash is patient. -/
def PatientStep (script : Bytes) (s : Shell page slots) (l : ShellLabel) (t : Shell page slots) :
    Prop :=
  s.step script l = some t ∧ s.Patient l

/-- No process can take a step. -/
def Done (script : Bytes) (s : Shell page slots) : Prop :=
  ∀ l t, ¬ PatientStep script s l t

end Shell

end X509Server
