import X509Server.Library.Pipe
import X509Server.Model.Machine

/-!
# exec.c

`exec_script` with the child it forks, as steps that the two processes take in any order.
The pipe is kept with its capacity and with the number of descriptors of its read end, which
decide whether a `write` can wait; its write end and what the scripts do are left out.  A
`write` is pending while the bytes it is given go into the pipe, one buffer at a time.  Linux
gives a pipe 16 buffers of 4096 bytes.
-/

set_option autoImplicit false

namespace X509Server

open Pipes

/-- The process that has called `exec_script`.
CSRC: exec.c:8-66 -/
inductive ParentPoint where
  | pipe
  | fork
  /-- the loop, with the bytes that have been written -/
  | writing (i : ℕ)
  | closeRead
  | closeWrite
  | waitpid
  | returned
  deriving DecidableEq, Repr

/-- The child, with the result of `dup2` up to `execlp`.
CSRC: exec.c:25-41 -/
inductive ChildPoint where
  | unborn
  | dup2
  | closeRead (ret : Bool)
  | closeWrite (ret : Bool)
  | execlp (ret : Bool)
  | bash
  | exited
  deriving DecidableEq, Repr

/-- The processes, the pipe, and who holds descriptors of its read end: the parent, the child,
and the processes that bash has started. -/
structure Exec (page slots : ℕ) where
  parent : ParentPoint
  child : ChildPoint
  pipe : Pipe UInt8 page slots
  parentReads : Bool
  childReads : ℕ
  othersRead : ℕ

/-- In front of `pipe`. -/
def Exec.start (page slots : ℕ) : Exec page slots where
  parent := .pipe
  child := .unborn
  pipe := .empty UInt8 page slots
  parentReads := false
  childReads := 0
  othersRead := 0

/-- The steps of the parent, of the child and of the other processes. -/
inductive ExecLabel where
  | pipe (ok : Bool)
  | fork (ok : Bool)
  /-- the pending `write` fills a buffer of the pipe -/
  | writes
  /-- `write` returns -1 -/
  | writeFails
  | leavesLoop
  | parentCloses
  | waitpid
  | dup2 (ok : Bool)
  | childCloses
  | execlp
  | childReads (n : ℕ)
  /-- bash starts a process with its own standard input -/
  | childForks
  /-- bash gives up its standard input -/
  | childDrops
  /-- the child exits by itself, at `exit(-1)` or by a signal -/
  | childExits
  | otherReads (n : ℕ)
  | otherForks
  | otherDrops

variable {page slots : ℕ}

/-- The steps of `exec_script` itself.
CSRC: exec.c:9-24, exec.c:43-66 -/
def Exec.parentStep (script : Bytes) (e : Exec page slots) : ExecLabel → Option (Exec page slots)
  | .pipe ok =>
    if e.parent = .pipe then
      if ok then some { e with parent := .fork, parentReads := true }
      else some { e with parent := .returned }
    else none
  | .fork ok =>
    if e.parent = .fork then
      if ok then some { e with parent := .writing 0, child := .dup2, childReads := 1 }
      else some { e with parent := .returned, parentReads := false }
    else none
  | .writes =>
    match e.parent with
    | .writing i =>
      let chunk := (script.drop i).take page
      (e.pipe.put? chunk).map fun pipe => { e with parent := .writing (i + chunk.length), pipe }
    | _ => none
  | .writeFails =>
    match e.parent with
    | .writing i => if i < script.length then some { e with parent := .closeRead } else none
    | _ => none
  | .leavesLoop =>
    match e.parent with
    | .writing i => if script.length ≤ i then some { e with parent := .closeRead } else none
    | _ => none
  | .parentCloses =>
    match e.parent with
    | .closeRead => some { e with parent := .closeWrite, parentReads := false }
    | .closeWrite => some { e with parent := .waitpid }
    | _ => none
  | .waitpid =>
    if e.parent = .waitpid ∧ e.child = .exited then some { e with parent := .returned } else none
  | _ => none

/-- The steps of the child.  A failing `execlp` is followed by `exit(-1)`.
CSRC: exec.c:25-41 -/
def Exec.childStep (e : Exec page slots) : ExecLabel → Option (Exec page slots)
  | .dup2 ok =>
    if e.child = .dup2 then
      some { e with
        child := .closeRead ok
        childReads := if ok then e.childReads + 1 else e.childReads }
    else none
  | .childCloses =>
    match e.child with
    | .closeRead ret => some { e with child := .closeWrite ret, childReads := e.childReads - 1 }
    | .closeWrite ret => some { e with child := .execlp ret }
    | _ => none
  | .execlp => if e.child = .execlp true then some { e with child := .bash } else none
  | .childReads n =>
    if e.child = .bash ∧ 0 < e.childReads then some { e with pipe := e.pipe.take n } else none
  | .childForks =>
    if e.child = .bash ∧ 0 < e.childReads then some { e with othersRead := e.othersRead + 1 }
    else none
  | .childDrops =>
    if e.child = .bash ∧ 0 < e.childReads then some { e with childReads := e.childReads - 1 }
    else none
  | .childExits =>
    if e.child ≠ .unborn ∧ e.child ≠ .exited then
      some { e with child := .exited, childReads := 0 }
    else none
  | _ => none

/-- The steps of the processes that bash has started. -/
def Exec.otherStep (e : Exec page slots) (l : ExecLabel) : Option (Exec page slots) :=
  if 0 < e.othersRead then
    match l with
    | .otherReads n => some { e with pipe := e.pipe.take n }
    | .otherForks => some { e with othersRead := e.othersRead + 1 }
    | .otherDrops => some { e with othersRead := e.othersRead - 1 }
    | _ => none
  else none

/-- Whichever process the label belongs to takes a step. -/
def Exec.step (script : Bytes) (e : Exec page slots) (l : ExecLabel) : Option (Exec page slots) :=
  (e.parentStep script l).or ((e.childStep l).or (e.otherStep l))

end X509Server
