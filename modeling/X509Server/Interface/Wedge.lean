import X509Server.Library.Runs
import X509Server.Model.Exec

/-!
# A server that waits for nobody

When the parent of a script can never go on: its `write` waits for room in a full pipe, and
nobody is left who could read from it.
-/

set_option autoImplicit false

namespace X509Server

variable {page slots : ℕ}

namespace Exec

/-- The descriptors of the read end. -/
def readEnds (e : Exec page slots) : ℕ :=
  (if e.parentReads then 1 else 0) + e.childReads + e.othersRead

/-- `write` has bytes left, the pipe is full, and its read end is open. -/
structure Blocked (script : Bytes) (e : Exec page slots) : Prop where
  writing : ∃ i, e.parent = .writing i ∧ i < script.length
  full : e.pipe.Full
  open_read : 0 < e.readEnds

/-- The child has exited, and no process but the parent holds the read end. -/
structure Abandoned (e : Exec page slots) : Prop where
  exited : e.child = .exited
  child : e.childReads = 0
  others : e.othersRead = 0

structure Wedged (script : Bytes) (e : Exec page slots) : Prop where
  blocked : e.Blocked script
  abandoned : e.Abandoned

/-- If the parent is in its loop, the free buffers of the pipe hold what it has not written. -/
def Fits (script : Bytes) (e : Exec page slots) : Prop :=
  ∀ i, e.parent = .writing i → script.length ≤ i + e.pipe.room

/-- A step.  If it is the one with which the last process but the parent gives up the script,
the rest of the script fits into the free buffers of the pipe. -/
structure ReadingStep (script : Bytes) (e : Exec page slots) (l : ExecLabel)
    (e' : Exec page slots) : Prop where
  step : e.step script l = some e'
  fits : ¬ e.Abandoned → e'.Abandoned → e.Fits script

end Exec

end X509Server
