import X509Server.Interface.Slots
import X509Server.Model.Startup

/-!
# What a start should come to, and what the process should hold

The start of the server is meant to be a choice: some call fails, or there is a file or a
directory to load keys from, in which each entry stands for the file whose path is the path
of the directory, one separator, and the name.  At any time the process should hold what its
`Resources` say, each thing once.
-/

set_option autoImplicit false

namespace X509Server

open Checked Ledgers

/-! ## The start -/

/-- The contents `read_cert` gets to see, if it does. -/
def FileCalls.contents (calls : FileCalls) : Option Bytes :=
  if calls.fd < 0 then none
  else
    match calls.size with
    | none => none
    | some size =>
      if size ≤ 0 then none
      else calls.mapped.map fun (_, cells) => (List.range size.toNat).map cells

/-- The path of an entry of a directory, with one separator. -/
def joinPath (path name : Bytes) : Bytes :=
  if path.getLast? = some 0x2f then path ++ name else path ++ 0x2f :: name

/-- A name, read one character a byte. -/
def nameString (name : Bytes) : String := String.ofList (name.map fun b => Char.ofNat b.toNat)

theorem FileCalls.contents_lt (calls : FileCalls) :
    ∀ raw ∈ calls.contents, raw.length < 2 ^ 63 := by
  intro raw hraw
  unfold FileCalls.contents at hraw
  split at hraw
  · cases hraw
  · cases hsize : calls.size with
    | none =>
      rw [hsize] at hraw
      cases hraw
    | some size =>
      rw [hsize] at hraw
      dsimp only at hraw
      split at hraw
      · cases hraw
      · obtain ⟨mapped, -, rfl⟩ := Option.map_eq_some_iff.mp hraw
        have hlt := calls.size_lt size hsize
        simp only [List.length_map, List.length_range]
        omega

def FileCalls.file (calls : FileCalls) : CertFile := ⟨calls.contents, calls.now, calls.contents_lt⟩

/-- An entry with the file at its path. -/
def EntryCalls.entry (path : Bytes) (calls : EntryCalls) : DirEntry :=
  ⟨nameString calls.name, (calls.fileAt (joinPath path calls.name)).file⟩

/-- The call for the sockets that fails first. -/
def StartCalls.sockets (calls : StartCalls) : Guarded StartFailure Unit := do
  failIf (calls.socket < 0) .socketFailed
  failIf (calls.bind = false) .bindFailed
  failIf (calls.listen = false) .listenFailed
  failIf (calls.epollCreate < 0) .epollCreateFailed
  failIf (calls.epollCtl = false) .epollCtlFailed

/-- What there is to load keys from.  The path of a directory has more than one character. -/
def StartCalls.keys (calls : StartCalls) (path : Bytes) : Guarded StartFailure Source := do
  match calls.isDir path with
  | none => throw (.code .statFailed)
  | some true => do
    failIf (calls.opendir path = none) .opendirFailed
    assertThat (decide (1 < path.length))
    return .directory (calls.entries.map (EntryCalls.entry path))
  | some false => return .file (calls.fileAt path).file

/-- The call that fails first, or what there is to load keys from. -/
def StartCalls.source (calls : StartCalls) : Guarded StartFailure Source :=
  match calls.path with
  | none => .error (.code .missingPath)
  | some path => do
    calls.sockets
    calls.keys path

/-- A source without a certificate. -/
def Source.failure : Source → StartFailure
  | .directory _ => .noCertificate
  | .file _ => .certificateRejected

variable (env : OpenSsl) (memory : ℕ → PubKey)

/-- The keys of a source, of which there must be one. -/
def Source.load (source : Source) : Guarded StartFailure (KeyStore × World) := do
  let (s, w) ← widen (loadKeys env memory source .initial)
  failIf (s.keysSize = 0) source.failure
  return (s, w)

/-- What a start comes to: the keys and the world behind it, or why it fails. -/
def StartCalls.load (calls : StartCalls) : Guarded StartFailure (KeyStore × World) := do
  let source ← calls.source
  source.load env memory

/-! ## Holdings -/

/-- What a member with a descriptor stands for. -/
def fdHoldings (fd : ℤ) : List Resource := if 0 < fd then [.descriptor fd] else []

/-- What a pointer stands for. -/
def blockHoldings : Option ℕ → List Resource
  | some address => [.block address]
  | none => []

/-- What `Resources` says that the process holds. -/
def Process.holdings (p : Process) : List Resource :=
  fdHoldings p.epollFd ++ (fdHoldings p.socketFd ++ (blockHoldings p.keysAt ++
    (p.resources.conns.flatMap (fun conn => fdHoldings conn.fd) ++
      p.bufsAt.flatMap blockHoldings)))

/-- Descriptor 0 was open at the start, so that no call gives it out. -/
def StdinOpen (start : Holdings) : Prop := start.live (.descriptor 0) = true

/-- Unless something has been given out twice, the process holds `others` and what its
`Resources` say, each once, and nothing that was not its own has been touched. -/
structure Process.Keeps (start : Holdings) (others : List Resource) (p : Process) : Prop where
  balanced : StdinOpen start → start.Balanced p.held (others ++ p.holdings)
  length_eq : p.bufsAt.length = p.resources.conns.length

/-- What the program leaves of OpenSSL, which had the objects of `w` behind the load of the keys:
no object has been freed twice, and of those in `w` the objects of the loaded keys are gone,
but not those of the keys that the server has removed. -/
structure KeysFreed (loaded kept : List PubKey) (w t : World) : Prop where
  once : t.misuses = []
  left : ∃ removed, loaded.Perm (kept ++ removed) ∧ ∀ object, t.live object = true ↔
    (w.live object = true ∧ object ∉ handlesOf loaded) ∨ object ∈ handlesOf removed

/-- The process does what the server does, and as long as no assertion fails it holds what its
`Resources` say. -/
structure Daemon.Serves (start : Holdings) (d : Daemon) (s : Server) : Prop where
  resources : d.phase = .running → s.resources = d.process.resources
  pending : s.pending = d.pending
  log : s.log = d.log
  phase : s.phase = d.phase
  keeps : (∀ fault, d.phase ≠ .aborted fault) → d.process.Keeps start []

end X509Server
