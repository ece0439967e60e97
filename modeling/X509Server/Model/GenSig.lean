import X509Server.Model.Machine

/-!
# gen_sig.c

The output of `gen_sig`: the signature, a newline and the script, written to standard output
with a loop around `write`.  The results of `write` are an argument.  They are kept in a
`size_t`, so -1 becomes the greatest number and the test for an error never succeeds.  The
script is what a loop around `fread` has made of the input file, in a buffer that is doubled.
-/

set_option autoImplicit false

namespace X509Server

/-- A result of `write`: how many bytes it is ready to take, or -1. -/
inductive WriteResult where
  | wrote (n : ℕ)
  | failed
  deriving DecidableEq, Repr

/-- The loops around `write`, from `writeStart` on and behind the output `out`: the output,
and the results that are left.  `none` where there are not enough results.
CSRC: gen_sig.c:87-98, gen_sig.c:103-114 -/
def writeLoop (data : Bytes) :
    List WriteResult → ℕ → Bytes → Option (Bytes × List WriteResult)
  | [], writeStart, out => if writeStart < data.length then none else some (out, [])
  | .failed :: writes, writeStart, out =>
    if writeStart < data.length then
      writeLoop data writes ((writeStart + (2 ^ 64 - 1)) % 2 ^ 64) out
    else some (out, .failed :: writes)
  | .wrote n :: writes, writeStart, out =>
    if writeStart < data.length then
      let chunk := (data.drop writeStart).take n
      if chunk.length > 0 then
        writeLoop data writes ((writeStart + chunk.length) % 2 ^ 64) (out ++ chunk)
      else some (out, writes)
    else some (out, .wrote n :: writes)

/-- The end of `main`: whether it exits with `EXIT_SUCCESS`, and the output.
CSRC: gen_sig.c:87-116 -/
def genSigOutput (sig data : Bytes) (writes : List WriteResult) : Option (Bool × Bytes) := do
  let (out, writes) ← writeLoop sig writes 0 []
  match writes with
  | [] => none
  | .failed :: _ => some (false, out)
  | .wrote 0 :: _ => some (false, out)
  | .wrote (_ + 1) :: writes => do
    let (out, _) ← writeLoop data writes 0 (out ++ [10])
    some (true, out)

/-! ## `main` -/

/-- Where `main` is without success: it has failed at a call, or waits for one. -/
inductive GenSigStop where
  | usage
  | keyFile
  | key
  | context
  | signInit
  | inputFile
  | reading
  | sign
  | writing
  | output (out : Bytes)
  deriving DecidableEq, Repr

/-- What the calls of `main` answer: whether they succeed, the input file, how many bytes each
`fread` is ready to deliver, the signature, and the results of `write`. -/
structure GenSigCalls where
  argc : ℕ
  keyFile : Bool
  pkey : Bool
  mdctx : Bool
  digestSignInit : Bool
  file : Option Bytes
  reads : List ℕ
  digestSign : Bytes → Option Bytes
  writes : List WriteResult
  sig_le : ∀ data sig, digestSign data = some sig → sig.length ≤ 2 ^ 18

/-- The loop around `fread`, behind `data` in a buffer of `dataCap` bytes.  A call delivers
nothing at the end of the file, or where it fails in front of its first byte; the test for an
error is the one of the loops around `write`.
CSRC: gen_sig.c:59-77 -/
def readLoop (file : Bytes) : List ℕ → ℕ → Bytes → Guarded GenSigStop Bytes
  | [], _, _ => .error (.code .reading)
  | n :: reads, dataCap, data => do
    let room ← usub dataCap data.length
    let chunk := ((file.drop data.length).take room).take n
    if chunk.length > 0 then
      if data.length + chunk.length ≥ dataCap then do
        let dataCap ← uadd dataCap dataCap
        readLoop file reads dataCap (data ++ chunk)
      else readLoop file reads dataCap (data ++ chunk)
    else .ok data

/-- `main` behind the opening of the input file.
CSRC: gen_sig.c:59-117 -/
def signFile (calls : GenSigCalls) (file : Bytes) : Guarded GenSigStop Bytes := do
  let data ← readLoop file calls.reads (2 ^ 18) []
  match calls.digestSign data with
  | none => .error (.code .sign)
  | some sig =>
    match genSigOutput sig data calls.writes with
    | none => .error (.code .writing)
    | some (false, out) => .error (.code (.output out))
    | some (true, out) => .ok out

/-- `main`: the output, where it exits with `EXIT_SUCCESS`.
CSRC: gen_sig.c:14-117 -/
def genSig (calls : GenSigCalls) : Guarded GenSigStop Bytes :=
  if calls.argc < 3 then .error (.code .usage)
  else if ¬ calls.keyFile then .error (.code .keyFile)
  else if ¬ calls.pkey then .error (.code .key)
  else if ¬ calls.mdctx then .error (.code .context)
  else if ¬ calls.digestSignInit then .error (.code .signInit)
  else match calls.file with
    | none => .error (.code .inputFile)
    | some file => signFile calls file

end X509Server
