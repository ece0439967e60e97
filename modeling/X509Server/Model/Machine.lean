import Mathlib.Algebra.Group.Nat.Defs
import X509Server.Library.Checked
import X509Server.Library.Window

/-!
# The machine the program runs on

`uinta` is the 64-bit unsigned integer of basic.h (`PTR64`).  A sum or a difference of the
parser is written `uadd`, `usub`: the exact result, or the fault `wrapAround` where the C
program would silently continue modulo `2 ^ 64`.  In the same way `rawByte` and `memcmpEq`
read the certificate only inside its bounds, and `assertThat` is `assert`, which both
builds compile in.
-/

set_option autoImplicit false

namespace X509Server

open ByteWindow

/-- `byte *` together with the size that travels with it. -/
abbrev Bytes := List UInt8

/-- What a run must never do. -/
inductive Fault where
  /-- a read outside the buffer -/
  | outOfBounds
  /-- a `uinta` sum or difference that is not the exact one -/
  | wrapAround
  /-- a failed `assert` -/
  | assertFailed
  /-- a table index at or beyond the table's size -/
  | tableOverflow
  /-- a loop that was cut off by the model's iteration bound -/
  | outOfFuel
  deriving DecidableEq, Repr

/-- A computation of the program with error codes `ε`. -/
abbrev Guarded (ε α : Type) := Checked.Run ε Fault α

section Operations

variable {ε : Type}

/-- `a + b` on `uinta`. -/
def uadd (a b : ℕ) : Guarded ε ℕ :=
  if a + b < 2 ^ 64 then .ok (a + b) else .error (.fault .wrapAround)

/-- `a - b` on `uinta`. -/
def usub (a b : ℕ) : Guarded ε ℕ :=
  if b ≤ a then .ok (a - b) else .error (.fault .wrapAround)

/-- `raw[i]`. -/
def rawByte (raw : Bytes) (i : ℕ) : Guarded ε UInt8 :=
  match raw[i]? with
  | some b => .ok b
  | none => .error (.fault .outOfBounds)

/-- The bytes at `&raw[start]`, `size` of them, all of which must exist. -/
def rawRange (raw : Bytes) (start size : ℕ) : Guarded ε Bytes :=
  if start + size ≤ raw.length then .ok (window raw start (start + size))
  else .error (.fault .outOfBounds)

/-- `assert(c)`. -/
def assertThat (c : Bool) : Guarded ε Unit :=
  if c then .ok () else .error (.fault .assertFailed)

/-- `memeq(&raw[start0], size0, &raw[start1], size1)` (basic.h): nothing is read when the
sizes differ.
CSRC: basic.h:88 -/
def memeq (raw : Bytes) (start0 size0 start1 size1 : ℕ) : Guarded ε Bool :=
  if size0 = size1 then do
    let xs ← rawRange raw start0 size1
    let ys ← rawRange raw start1 size1
    .ok (decide (xs = ys))
  else .ok false

/-- `memeq` against a constant table entry.
CSRC: basic.h:88 -/
def memeqConst (entry : Bytes) (raw : Bytes) (start size : ℕ) : Guarded ε Bool :=
  if entry.length = size then do
    let ys ← rawRange raw start size
    .ok (decide (entry = ys))
  else .ok false

end Operations

end X509Server
