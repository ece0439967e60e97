import Mathlib.Data.Stream.Init
import X509Server.Interface.RoundTrip

/-!
# The output of gen_sig

Every call of `write` has a result, whether or not it is made, so the results are an infinite
sequence.  A call is made as long as the results in front of it do not suffice for an exit.
-/

set_option autoImplicit false

namespace X509Server

/-- The call of `write` with the number `i` is made. -/
def Calls (sig script : Bytes) (results : Stream' WriteResult) (i : ℕ) : Prop :=
  genSigOutput sig script (results.take i) = none

/-- The call that writes the newline, the first one behind the loop over the signature. -/
def NewlineCall (sig : Bytes) (results : Stream' WriteResult) (i : ℕ) : Prop :=
  ∃ out, writeLoop sig (results.take i) 0 [] = some (out, [])

/-- Success is reported for the whole message only, and a call that fails ends in an exit that
reports failure. -/
structure OutputIntact (sig script : Bytes) (results : Stream' WriteResult) : Prop where
  success : ∀ n out, genSigOutput sig script (results.take n) = some (true, out) →
    out = sig ++ 10 :: script
  failure : ∀ i, Calls sig script results i → results.get i = .failed →
    ∃ n out, genSigOutput sig script (results.take n) = some (false, out)

/-- What has been read of a file by calls that are ready to deliver `reads`: all of it, unless a
call delivers nothing, and never more than the calls in front of that one deliver. -/
structure ReadFrom (file : Bytes) (reads : List ℕ) (data : Bytes) : Prop where
  isPrefix : data <+: file
  whole : 0 ∉ reads → data = file
  length_le : data.length ≤ (reads.takeWhile fun n => 0 < n).sum

/-- The calls in front of the loop around `fread` succeed. -/
structure GenSigCalls.Prepared (calls : GenSigCalls) (file : Bytes) : Prop where
  argc : 3 ≤ calls.argc
  keyFile : calls.keyFile = true
  pkey : calls.pkey = true
  mdctx : calls.mdctx = true
  digestSignInit : calls.digestSignInit = true
  file_eq : calls.file = some file

/-- There are results for the whole file and the whole message, and each `write` takes at least
one byte. -/
structure GenSigCalls.Suffice (calls : GenSigCalls) (file : Bytes) : Prop where
  reads : file.length < calls.reads.length
  writes : 2 ^ 18 + file.length < calls.writes.length
  takes : ∀ w ∈ calls.writes, w.Takes

end X509Server
