import X509Server.Model.Exec

/-!
# exec.c with the write end of the pipe

`exec_script` again, with what `Exec` leaves out: who holds descriptors of the write end of
the pipe, which decides whether a reader is told of the end, whether a `write` has failed, and
whether bash has come to the end of its input.
-/

set_option autoImplicit false

namespace X509Server

/-- The processes and the pipe, with the descriptors of its write end: those of the parent and
of the child, and whether a process that bash has started may hold one. -/
structure Shell (page slots : ℕ) extends Exec page slots where
  parentWrites : Bool
  childWrites : ℕ
  othersWrite : Bool
  /-- a `write` has returned -1 -/
  failed : Bool
  /-- `read` has returned 0 to bash -/
  ended : Bool

/-- In front of `pipe`. -/
def Shell.start (page slots : ℕ) : Shell page slots where
  toExec := .start page slots
  parentWrites := false
  childWrites := 0
  othersWrite := false
  failed := false
  ended := false

inductive ShellLabel where
  | exec (l : ExecLabel)
  /-- bash reads an empty pipe that nobody can write to -/
  | childEnds

variable {page slots : ℕ}

namespace Shell

/-- The descriptors of the write end, and the failure of `write`, behind a step.
CSRC: exec.c:10, exec.c:16-21, exec.c:28-29, exec.c:53-56, exec.c:62 -/
def follow (s : Shell page slots) : ExecLabel → Shell page slots
  | .pipe ok => { s with parentWrites := ok }
  | .fork ok => if ok then { s with childWrites := 1 } else { s with parentWrites := false }
  | .writeFails => { s with failed := true }
  | .parentCloses => if s.parent = .closeWrite then { s with parentWrites := false } else s
  | .childCloses =>
    match s.child with
    | .closeWrite _ => { s with childWrites := s.childWrites - 1 }
    | _ => s
  -- a process inherits every descriptor of the one that starts it
  | .childForks => { s with othersWrite := s.othersWrite || decide (0 < s.childWrites) }
  | .childExits => { s with childWrites := 0 }
  | _ => s

/-- Some process can write into the pipe. -/
def Writable (s : Shell page slots) : Prop :=
  s.parentWrites = true ∨ 0 < s.childWrites ∨ s.othersWrite = true

instance (s : Shell page slots) : Decidable s.Writable :=
  inferInstanceAs (Decidable (_ ∨ _))

def step (script : Bytes) (s : Shell page slots) : ShellLabel → Option (Shell page slots)
  | .exec l => (s.toExec.step script l).map fun e => { s.follow l with toExec := e }
  | .childEnds =>
    if s.child = .bash ∧ 0 < s.childReads ∧ s.pipe.waiting = [] ∧ ¬ s.Writable then
      some { s with ended := true }
    else none

end Shell

end X509Server
