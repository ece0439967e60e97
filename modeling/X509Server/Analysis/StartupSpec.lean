import X509Server.Analysis.ReleaseSpec

/-!
# The start

The start with its system calls does what the load of the keys does, call for call
(`readCertFile_refines`, `visitEntries_refines`).  Started so, the process serves exactly the
runs of the server (`program_refines_server`), and `main` returns with everything given back
but the objects of the keys that it has removed (`resources_returned`).
-/

set_option autoImplicit false

namespace X509Server

open Checked Ledgers Runs Stateful

variable {ε : Type} {start : Holdings} {others : List Resource} {p : Process}

/-! ## `read_cert` -/

variable (env : OpenSsl)

/-- What `read_cert` does with a file that can be mapped, and with others. -/
theorem readCert_eq (calls : FileCalls) (pub : PubKey) (w : World) :
    readCert env calls.file pub w =
      match calls.contents with
      | none => .ok (false, pub, w)
      | some raw =>
        if raw.length = 0 then .ok (false, pub, w) else checkCert env raw calls.now pub w := rfl

theorem widen_ne_code {α : Type} (q : Crypto α) (c : ε) :
    (widen q : Guarded ε α) ≠ .error (.code c) := by
  cases q with
  | ok a => simp [widen]
  | error stop =>
    cases stop with
    | code c => exact c.elim
    | fault f => simp [widen]

/-- With its system calls, `read_cert` accepts what it accepts of the file, and has given back
what it has been given when it returns. -/
theorem readCertFile_refines {E : ε → Process → Prop} (calls : FileCalls) (pub : PubKey)
    (h : p.Keeps start others) :
    Refines (readCertFile env calls pub) p (widen (readCert env calls.file pub p.world))
      (fun out t r => out = (r.1, r.2.1) ∧ t.resources = p.resources ∧ t.world = r.2.2 ∧
        t.keysAt = p.keysAt ∧ t.Keeps start others) E := by
  rw [readCert_eq]
  unfold readCertFile FileCalls.contents
  by_cases hfd : calls.fd < 0
  · rw [if_pos hfd, if_pos hfd]
    exact refines_pure ⟨rfl, rfl, rfl, rfl, h⟩
  rw [if_neg hfd, if_neg hfd, refines_acquire]
  have hopen := h.acquire (.descriptor calls.fd)
  cases hsize : calls.size with
  | none =>
    dsimp only
    rw [refines_close]
    exact refines_pure ⟨rfl, rfl, rfl, rfl, hopen.release⟩
  | some size =>
    dsimp only
    by_cases hempty : size ≤ 0
    · rw [if_pos hempty, if_pos hempty, refines_close]
      exact refines_pure ⟨rfl, rfl, rfl, rfl, hopen.release⟩
    rw [if_neg hempty, if_neg hempty]
    cases hmapped : calls.mapped with
    | none =>
      dsimp only
      rw [refines_close]
      exact refines_pure ⟨rfl, rfl, rfl, rfl, hopen.release⟩
    | some mapped =>
      obtain ⟨address, cells⟩ := mapped
      have hmap := hopen.acquire (.mapping address size.toNat)
      dsimp only [Option.map_some]
      have hlength : ((List.range size.toNat).map cells).length ≠ 0 := by
        rw [List.length_map, List.length_range]
        omega
      rw [refines_acquire, refines_get, if_neg hlength]
      apply (refines_lift fun c hc => absurd hc (widen_ne_code _ c)).followed
      rintro ⟨accepted, pub', w'⟩ _ _ ⟨rfl, rfl, -⟩
      rw [refines_modify, refines_release, refines_close]
      have hclosed := hmap.release.release
      exact refines_pure ⟨rfl, rfl, rfl, rfl, hclosed.balanced, hclosed.length_eq⟩

/-! ## The key array -/

/-- The process while it loads its keys. -/
structure Process.Loading (start : Holdings) (others : List Resource) (s : KeyStore) (w : World)
    (p : Process) : Prop where
  resources : p.resources = (Server.start s).resources
  world : p.world = w
  keysAt : p.keysAt.isSome = true
  keeps : p.Keeps start others

section Keys

variable {s : KeyStore} {w : World} {E : ε → Process → Prop}

theorem Process.Keeps.setKeysAt (keysAt : Option ℕ) (others : List Resource)
    (h : p.Keeps start (blockHoldings keysAt ++ others)) :
    Process.Keeps start (blockHoldings p.keysAt ++ others) { p with keysAt } := by
  refine Process.Keeps.exchange h (by rfl) h.length_eq fun a => ?_
  simp only [Process.holdings, List.count_append]
  omega

theorem Process.Loading.acquire (h : p.Loading start others s w) (resource : Resource) :
    Process.Loading start (resource :: others) s w
      { p with held := p.held.acquire resource } :=
  ⟨h.resources, h.world, h.keysAt, h.keeps.acquire resource⟩

theorem Process.Loading.release {resource : Resource}
    (h : p.Loading start (resource :: others) s w) :
    Process.Loading start others s w { p with held := p.held.release resource } :=
  ⟨h.resources, h.world, h.keysAt, h.keeps.release⟩

theorem Process.Loading.malloc (h : p.Loading start others s w) (heap : ℕ → ℕ) :
    Process.Loading start (.block (heap p.allocations) :: others) s w
      { p with
        allocations := p.allocations + 1
        held := p.held.acquire (.block (heap p.allocations)) } :=
  ⟨h.resources, h.world, h.keysAt, h.keeps.malloc heap⟩

theorem Process.Loading.setKeys (h : p.Loading start others s w) (s' : KeyStore) :
    Process.Loading start others s' w
      { p with resources := { p.resources with toKeyStore := s' } } where
  resources := by rw [h.resources]; rfl
  world := h.world
  keysAt := h.keysAt
  keeps := ⟨h.keeps.balanced, h.keeps.length_eq⟩

theorem widen_slotAt (keys : List PubKey) (i : ℕ) :
    (widen (slotAt keys i) : Guarded ε PubKey) = slotAt keys i := by
  unfold slotAt
  split <;> rfl

theorem slotAt_ne_code (keys : List PubKey) (i : ℕ) (c : ε) :
    (slotAt keys i : Guarded ε PubKey) ≠ .error (.code c) := by
  rw [← widen_slotAt]
  exact widen_ne_code _ c

/-- `read_cert` into the first free slot. -/
theorem readKey_refines (calls : FileCalls) (h : p.Loading start others s w) :
    Refines (readKey env calls) p (widen (s.read env calls.file w))
      (fun _ t r => t.Loading start others r.1 r.2) E := by
  have hstore : p.resources.toKeyStore = s := by rw [h.resources]; rfl
  unfold readKey KeyStore.read
  rw [refines_get, widen_bind, widen_slotAt, hstore]
  apply (refines_lift fun c hc => absurd hc (slotAt_ne_code _ _ c)).bind
  rintro slot _ _ ⟨rfl, rfl, -⟩
  rw [widen_bind, ← h.world]
  apply (readCertFile_refines env calls slot h.keeps).bind
  rintro _ t ⟨accepted, pub, w'⟩ ⟨rfl, hresources, hworld, hkeysAt, hkept⟩
  have hloading : t.Loading start others s w' :=
    ⟨hresources.trans h.resources, hworld, hkeysAt ▸ h.keysAt, hkept⟩
  exact (hloading.setKeys _ : _)

variable (memory : ℕ → PubKey) (heap : ℕ → ℕ)

/-- A full array is given back for another one. -/
theorem reserveKeys_refines (h : p.Loading start others s w) :
    Refines (reserveKeys memory heap) p (.ok () : Guarded ε Unit)
      (fun _ t _ => t.Loading start others (s.reserve memory) w) E := by
  have hstore : p.resources.toKeyStore = s := by rw [h.resources]; rfl
  unfold reserveKeys
  rw [refines_get, hstore]
  dsimp only
  split
  · have hend (n : ℕ) (held : Holdings) (hkept : Process.Keeps start others
        { p with keysAt := some (heap p.allocations), allocations := n, held }) :
        Process.Loading start others (s.reserve memory) w
          { p with
            keysAt := some (heap p.allocations)
            allocations := n
            held
            resources := { p.resources with toKeyStore := s.reserve memory } } :=
      ⟨by rw [h.resources]; rfl, h.world, rfl, hkept.balanced, hkept.length_eq⟩
    cases hat : p.keysAt with
    | none =>
      have hset := (h.keeps.malloc heap).setKeysAt (some (heap p.allocations)) others
      dsimp only at hset
      rw [hat] at hset
      exact (hend _ _ hset : _)
    | some address =>
      -- there is no array between the two halves of `realloc`
      have hempty := h.keeps.setKeysAt none others
      rw [hat] at hempty
      have hset := (hempty.release.malloc heap).setKeysAt (some (heap p.allocations)) others
      exact (hend _ _ hset : _)
  · rename_i hspare
    have hsame : s.reserve memory = s := if_neg hspare
    rw [hsame]
    exact (h : _)

end Keys

/-! ## The directory -/

theorem char_toNat : ∀ n < 256, (Char.ofNat n).toNat = n := by decide +kernel

/-- Different names are different strings. -/
theorem nameString_injective : Function.Injective nameString := by
  intro name name' h
  refine List.map_injective_iff.mpr ?_ (String.ofList_injective h)
  intro b b' hchar
  have hnat := congrArg Char.toNat hchar
  dsimp only at hnat
  rw [char_toNat _ b.toNat_lt, char_toNat _ b'.toNat_lt] at hnat
  exact UInt8.toNat_inj.mp hnat

theorem nameString_special (name : Bytes) : nameString name = "." ∨ nameString name = ".." ↔
    name = [0x2e] ∨ name = [0x2e, 0x2e] := by
  have hdot : nameString [0x2e] = "." := by decide
  have hdots : nameString [0x2e, 0x2e] = ".." := by decide
  rw [← hdot, ← hdots, nameString_injective.eq_iff, nameString_injective.eq_iff]

/-- The separator is put in if the path does not end with one. -/
theorem joinPath_eq {path : Bytes} {last : UInt8} (hlast : path.getLast? = some last)
    (name : Bytes) :
    joinPath path name =
      if decide (last = 0x2f) then path ++ name else path ++ 0x2f :: name := by
  unfold joinPath
  rw [hlast]
  simp only [Option.some.injEq, decide_eq_true_eq]

theorem pathSize_eq {path name : Bytes} (hpath : path.length < 2 ^ 63) (hname : name.length < 256) :
    (pathSize path name : Guarded ε ℕ) = .ok (path.length + 1 + name.length + 1) := by
  unfold pathSize uadd
  rw [if_pos (by omega), ok_bind, if_pos (by omega), ok_bind, if_pos (by omega)]

section Walk

variable (memory : ℕ → PubKey) (heap : ℕ → ℕ) {s : KeyStore} {w : World}
  {E : ε → Process → Prop}

/-- Behind a reservation the buffer is as large as it must be. -/
theorem PathBuf.reserve_refines (buf : PathBuf) (total : ℕ)
    (h : p.Loading start (.block buf.address :: others) s w) :
    Refines (buf.reserve heap total) p (.ok () : Guarded ε Unit)
      (fun buf t _ => total ≤ buf.cap ∧ t.Loading start (.block buf.address :: others) s w) E := by
  unfold PathBuf.reserve
  split
  · exact And.intro le_rfl (h.release.malloc heap)
  · rename_i hfits
    exact refines_pure ⟨not_lt.mp hfits, h⟩

/-- A turn of the loop reads the file at the path of the entry, and never writes beyond the
end of the buffer. -/
theorem visitEntry_refines {path : Bytes} {last : UInt8} (hpath : path.length < 2 ^ 63)
    (hlast : path.getLast? = some last) (entry : EntryCalls) (buf : PathBuf)
    (h : p.Loading start (.block buf.address :: others) s w) :
    Refines (visitEntry env memory heap path (decide (last = 0x2f)) entry buf) p
      (widen (loadEntry env memory (entry.entry path) s w))
      (fun buf t r => t.Loading start (.block buf.address :: others) r.1 r.2) E := by
  have hname : (entry.entry path).name = "." ∨ (entry.entry path).name = ".." ↔
      entry.name = [0x2e] ∨ entry.name = [0x2e, 0x2e] := nameString_special entry.name
  unfold visitEntry loadEntry
  by_cases hspecial : entry.name = [0x2e] ∨ entry.name = [0x2e, 0x2e]
  · rw [if_pos hspecial, if_pos (hname.mpr hspecial)]
    exact refines_pure h
  rw [if_neg hspecial, if_neg (mt hname.mp hspecial)]
  apply (reserveKeys_refines memory heap h).silent
  intro _ t hreserved
  rw [refines_lift_ok (pathSize_eq hpath entry.name_lt)]
  apply (PathBuf.reserve_refines heap buf _ hreserved).silent
  rintro buf t ⟨hcap, hready⟩
  dsimp only
  rw [← joinPath_eq hlast]
  have hfits : (buf.sprintf (joinPath path entry.name) : Guarded ε Bytes) =
      .ok (joinPath path entry.name) := by
    refine if_pos (le_trans ?_ hcap)
    unfold joinPath
    split
    · rw [List.length_append]
      omega
    · rw [List.length_append, List.length_cons]
      omega
  rw [refines_lift_ok hfits]
  apply (readKey_refines env _ hready).followed
  intro _ t r hloaded
  exact refines_pure hloaded

/-- The directory loop. -/
theorem visitEntries_refines {path : Bytes} {last : UInt8} (hpath : path.length < 2 ^ 63)
    (hlast : path.getLast? = some last) (entries : List EntryCalls) (buf : PathBuf)
    (h : p.Loading start (.block buf.address :: others) s w) :
    Refines (visitEntries env memory heap path (decide (last = 0x2f)) entries buf) p
      (widen (loadDirectory env memory (entries.map (EntryCalls.entry path)) s w))
      (fun buf t r => t.Loading start (.block buf.address :: others) r.1 r.2) E := by
  induction entries generalizing p buf s w with
  | nil => exact refines_pure h
  | cons entry entries ih =>
    rw [List.map_cons, loadDirectory, widen_bind]
    apply (visitEntry_refines env memory heap hpath hlast entry buf h).bind
    rintro buf t ⟨s, w⟩ hloaded
    exact ih buf hloaded

end Walk

/-! ## The sockets -/

/-- A descriptor is kept, unless it is one that was open at the start. -/
theorem openFd_refines {fd : ℤ} {E : StartFailure → Process → Prop} (h : p.Keeps start others) :
    Refines (openFd fd) p (.ok () : Guarded StartFailure Unit)
      (fun _ t _ => ∃ held, t = { p with held } ∧ t.Keeps start (fdHoldings fd ++ others)) E := by
  unfold openFd fdHoldings
  rcases lt_trichotomy fd 0 with hneg | rfl | hpos
  · rw [if_neg (by omega), if_neg (by omega)]
    exact refines_pure ⟨p.held, rfl, h⟩
  · exact Exists.intro _ (And.intro rfl (h.acquire_stdin _))
  · rw [if_pos (by omega), if_pos hpos]
    exact Exists.intro _ (And.intro rfl (h.acquire (.descriptor fd)))

theorem Process.Keeps.setSocketFd (socketFd : ℤ) (others : List Resource)
    (h : p.Keeps start (fdHoldings socketFd ++ others)) :
    Process.Keeps start (fdHoldings p.socketFd ++ others) { p with socketFd } := by
  refine Process.Keeps.exchange h (by rfl) h.length_eq fun a => ?_
  simp only [Process.holdings, List.count_append]
  omega

theorem Process.Keeps.setEpollFd (epollFd : ℤ) (others : List Resource)
    (h : p.Keeps start (fdHoldings epollFd ++ others)) :
    Process.Keeps start (fdHoldings p.epollFd ++ others) { p with epollFd } := by
  refine Process.Keeps.exchange h (by rfl) h.length_eq fun a => ?_
  simp only [Process.holdings, List.count_append]
  omega

/-- The process in front of its keys. -/
structure Process.Fresh (start : Holdings) (p : Process) : Prop where
  resources : p.resources = (Server.start ⟨[], 0⟩).resources
  world : p.world = .initial
  keysAt : p.keysAt = none
  keeps : p.Keeps start []

theorem zero_keeps (start : Holdings) : (Process.zero start).Keeps start [] where
  balanced _ := Account.Balanced.refl start
  length_eq := rfl

/-- The sockets. -/
theorem openSockets_refines (calls : StartCalls) :
    Refines (openSockets calls) (.zero start) calls.sockets (fun _ t _ => t.Fresh start)
      fun _ t => t.Keeps start [] ∧ t.resources.keysSize = 0 := by
  unfold openSockets StartCalls.sockets
  apply (openFd_refines (zero_keeps start)).silent
  rintro _ _ ⟨held, rfl, hsocket⟩
  rw [refines_modify]
  have hopened := hsocket.setSocketFd calls.socket []
  apply (refines_lift fun _ _ => ⟨hopened, rfl⟩).bind
  rintro _ _ _ ⟨rfl, rfl, -⟩
  apply (refines_lift fun _ _ => ⟨hopened, rfl⟩).bind
  rintro _ _ _ ⟨rfl, rfl, -⟩
  apply (refines_lift fun _ _ => ⟨hopened, rfl⟩).bind
  rintro _ _ _ ⟨rfl, rfl, -⟩
  apply (openFd_refines hopened).silent
  rintro _ _ ⟨held, rfl, hepoll⟩
  rw [refines_modify]
  have hready := hepoll.setEpollFd calls.epollCreate []
  apply (refines_lift fun _ _ => ⟨hready, rfl⟩).bind
  rintro _ _ _ ⟨rfl, rfl, -⟩
  refine (refines_lift (E := fun _ t => t.Keeps start [] ∧ t.resources.keysSize = 0)
    fun _ _ => ⟨hready, rfl⟩).mono ?_ fun _ _ => id
  rintro _ _ _ ⟨rfl, -, -⟩
  exact ⟨rfl, rfl, rfl, hready⟩

/-! ## The keys -/

section Start

variable (memory : ℕ → PubKey) (heap : ℕ → ℕ) {s : KeyStore} {w : World}

/-- The server is ready to wait. -/
def Started (start : Holdings) (t : Process) (r : KeyStore × World) : Prop :=
  t.Loading start [] r.1 r.2 ∧ r.1.keysSize ≠ 0

/-- A start that has failed has no keys; if it has come to the load of the keys, it ends behind
that. -/
structure Process.Failed (calls : StartCalls) (start : Holdings) (p : Process) : Prop where
  keeps : p.Keeps start []
  keysSize : p.resources.keysSize = 0
  loading : ∀ source s w, calls.source = .ok source →
    loadKeys env memory source .initial = .ok (s, w) → p.Loading start [] s w

theorem allocateKeys_refines {E : StartFailure → Process → Prop} (h : p.Fresh start) :
    Refines (allocateKeys memory heap) p (.ok () : Guarded StartFailure Unit)
      (fun _ t _ => t.Loading start [] (.malloc memory) .initial) E := by
  have hset := (h.keeps.malloc heap).setKeysAt (some (heap p.allocations)) []
  dsimp only at hset
  rw [h.keysAt] at hset
  have hresources : { p.resources with toKeyStore := KeyStore.malloc memory } =
      (Server.start (.malloc memory)).resources := by
    rw [h.resources]
    rfl
  exact Process.Loading.mk hresources h.world rfl ⟨hset.balanced, hset.length_eq⟩

/-- The last test of a start. -/
theorem finish_refines {calls : StartCalls} {source : Source} {failure : StartFailure}
    (h : p.Loading start [] s w) (hsource : ∀ source', calls.source = .ok source' →
      source' = source) (hload : loadKeys env memory source .initial = .ok (s, w)) :
    Refines (get >>= fun p => liftM (failIf (p.resources.keysSize = 0) failure)) p
      (failIf (s.keysSize = 0) failure >>= fun _ => .ok (s, w)) (fun _ t r => Started start t r)
      fun _ t => t.Failed env memory calls start := by
  have hsize : p.resources.keysSize = s.keysSize := by rw [h.resources]; rfl
  rw [refines_get, hsize]
  unfold failIf
  split
  · rename_i hzero
    refine refines_code ⟨h.keeps, hsize.trans hzero, fun source' s' w' hsource' hload' => ?_⟩
    rw [hsource source' hsource', hload] at hload'
    obtain ⟨rfl, rfl⟩ := Prod.mk.inj (Except.ok.inj hload')
    exact h
  · rename_i hne
    exact And.intro h hne

theorem widen_ok {α : Type} {q : Crypto α} {a : α} (h : (widen q : Guarded ε α) = .ok a) :
    q = .ok a := by
  cases q with
  | ok b =>
    obtain rfl := Except.ok.inj h
    rfl
  | error stop =>
    cases stop with
    | code c => exact c.elim
    | fault f => cases h

/-- The keys of a directory. -/
theorem openDirectory_refines {calls : StartCalls} {path : Bytes} (hpath : path.length < 2 ^ 63)
    (h : p.Loading start [] (.malloc memory) .initial) (hdir : calls.isDir path = some true)
    (hkeys : ∀ source, calls.source = .ok source → calls.keys path = .ok source) :
    Refines (openDirectory env memory heap calls path) p
      (calls.keys path >>= fun source => source.load env memory)
      (fun _ t r => Started start t r) fun _ t => t.Failed env memory calls start := by
  unfold openDirectory
  dsimp only
  cases hopen : calls.opendir path with
  | none =>
    have hfailed : calls.keys path = .error (.code .opendirFailed) := by
      unfold StartCalls.keys
      rw [hdir]
      dsimp only
      rw [hopen]
      rfl
    rw [hfailed]
    refine refines_code ⟨h.keeps, by rw [h.resources]; rfl, fun source s w hsource => ?_⟩
    exact absurd (hfailed.symm.trans (hkeys source hsource)) (by simp)
  | some dir =>
    have hloading := (h.acquire (.directory dir)).malloc heap
    have hfound : calls.keys path = (assertThat (decide (1 < path.length)) >>= fun _ =>
        .ok (.directory (calls.entries.map (EntryCalls.entry path)))) := by
      unfold StartCalls.keys
      rw [hdir]
      dsimp only
      rw [hopen]
      rfl
    rw [hfound] at hkeys ⊢
    rw [refines_acquire, refines_malloc, bind_assoc]
    apply (refines_lift fun c hc => absurd hc (assertThat_ne_code _ c)).bind
    rintro _ _ _ ⟨rfl, rfl, hasserted⟩
    have hlong : 1 < path.length := of_decide_eq_true (assertThat_ok hasserted)
    have hlt : path.length - 1 < path.length := by omega
    have hlast : path.getLast? = some path[path.length - 1] := by
      rw [List.getLast?_eq_getElem?, List.getElem?_eq_getElem hlt]
    have hread : (rawByte path (path.length - 1) : Guarded StartFailure UInt8) =
        .ok path[path.length - 1] := by
      unfold rawByte
      rw [List.getElem?_eq_getElem hlt]
    rw [refines_lift_ok hread]
    dsimp only
    apply ((visitEntries_refines env memory heap hpath hlast calls.entries
      ⟨heap p.allocations, kilobyte⟩ hloading).remember.mono (fun _ _ _ h => h)
        fun _ _ h => h.1).bind
    rintro buf t ⟨s, w⟩ ⟨hloaded, hok⟩
    have hsource : ∀ source, calls.source = .ok source →
        source = .directory (calls.entries.map (EntryCalls.entry path)) := by
      intro source hsource
      have hsame := hkeys source hsource
      rw [hasserted, ok_bind] at hsame
      exact (Except.ok.inj hsame).symm
    exact finish_refines env memory hloaded.release.release hsource (widen_ok hok)

/-- The keys. -/
theorem openKeys_refines {calls : StartCalls} {path : Bytes} (hpath : path.length < 2 ^ 63)
    (h : p.Fresh start)
    (hkeys : ∀ source, calls.source = .ok source → calls.keys path = .ok source) :
    Refines (openKeys env memory heap calls path) p
      (calls.keys path >>= fun source => source.load env memory)
      (fun _ t r => Started start t r) fun _ t => t.Failed env memory calls start := by
  unfold openKeys
  cases hdir : calls.isDir path with
  | none =>
    have hfailed : calls.keys path = .error (.code .statFailed) := by
      unfold StartCalls.keys
      rw [hdir]
      rfl
    rw [hfailed]
    refine refines_code ⟨h.keeps, by rw [h.resources]; rfl, fun source s w hsource => ?_⟩
    exact absurd (hfailed.symm.trans (hkeys source hsource)) (by simp)
  | some isDir =>
    dsimp only
    apply (allocateKeys_refines memory heap h).silent
    intro _ t hloading
    cases isDir with
    | true => exact openDirectory_refines env memory heap hpath hloading hdir hkeys
    | false =>
      have hfound : calls.keys path = .ok (.file (calls.fileAt path).file) := by
        unfold StartCalls.keys
        rw [hdir]
        rfl
      rw [hfound] at hkeys ⊢
      apply ((readKey_refines env (calls.fileAt path) hloading).remember.mono
        (fun _ _ _ h => h) fun _ _ h => h.1).bind
      rintro _ t ⟨s, w⟩ ⟨hloaded, hok⟩
      exact finish_refines env memory hloaded
        (fun source hsource => (Except.ok.inj (hkeys source hsource)).symm) (widen_ok hok)

/-- The start. -/
theorem startServer_refines (calls : StartCalls) :
    Refines (startServer env memory heap calls) (.zero start) (calls.load env memory)
      (fun _ t r => Started start t r) fun _ t => t.Failed env memory calls start := by
  unfold startServer StartCalls.load
  cases hpath : calls.path with
  | none =>
    have hfailed : calls.source = .error (.code .missingPath) := by
      unfold StartCalls.source
      rw [hpath]
    rw [hfailed]
    refine refines_code ⟨zero_keeps start, rfl, fun source s w hsource => ?_⟩
    exact absurd (hfailed.symm.trans hsource) (by simp)
  | some path =>
    have hfound : calls.source = (calls.sockets >>= fun _ => calls.keys path) := by
      unfold StartCalls.source
      rw [hpath]
    rw [hfound]
    dsimp only
    rw [bind_assoc]
    refine ((openSockets_refines calls).remember.mono (fun _ _ _ h => h) ?_).bind ?_
    · rintro failure t ⟨⟨hkept, hsize⟩, hsockets⟩
      refine ⟨hkept, hsize, fun source s w hsource => ?_⟩
      rw [hfound, hsockets] at hsource
      cases hsource
    · rintro _ t _ ⟨hfresh, hsockets⟩
      refine openKeys_refines env memory heap (calls.path_lt path hpath) hfresh ?_
      intro source hsource
      rwa [hfound, hsockets] at hsource

end Start

/-! ## Faults -/

section Faults

variable (memory : ℕ → PubKey)

theorem failIf_safe (failed : Prop) [Decidable failed] (failure : StartFailure) :
    Safe (failIf failed failure) fun _ => True := by
  unfold failIf
  split <;> trivial

theorem sockets_safe (calls : StartCalls) : Safe calls.sockets fun _ => True :=
  (failIf_safe _ _).bind fun _ _ => (failIf_safe _ _).bind fun _ _ =>
    (failIf_safe _ _).bind fun _ _ => (failIf_safe _ _).bind fun _ _ => failIf_safe _ _

/-- The keys of a source are loaded without a fault. -/
theorem source_load_safe (source : Source) :
    Safe (source.load env memory) fun _ => True := by
  obtain ⟨⟨s, w⟩, hload, -⟩ := loadKeys_ok env memory source
  unfold Source.load
  rw [hload]
  exact (failIf_safe _ _).bind fun _ _ => trivial

/-- What there is to load keys from is found without a fault, unless the path of a directory is
too short for the assertion on its length. -/
theorem keys_fault_iff (calls : StartCalls) (path : Bytes) (fault : Fault) :
    calls.keys path = .error (.fault fault) ↔ fault = .assertFailed ∧ path.length ≤ 1 ∧
      calls.isDir path = some true ∧ (calls.opendir path).isSome = true := by
  unfold StartCalls.keys
  cases calls.isDir path with
  | none => simp [throw, throwThe, MonadExceptOf.throw]
  | some isDir =>
    cases isDir with
    | false => simp [pure, Except.pure]
    | true =>
      cases calls.opendir path with
      | none => simp [failIf]
      | some dir =>
        by_cases hlong : 1 < path.length
        · simp [failIf, assertThat, hlong, pure, Except.pure]
        · simp [failIf, assertThat, hlong, not_lt.mp hlong, eq_comm]

/-- A start faults only in this assertion. -/
theorem load_fault_iff (calls : StartCalls) (fault : Fault) :
    calls.load env memory = .error (.fault fault) ↔ fault = .assertFailed ∧
      calls.sockets = .ok () ∧ ∃ path, calls.path = some path ∧ path.length ≤ 1 ∧
        calls.isDir path = some true ∧ (calls.opendir path).isSome = true := by
  unfold StartCalls.load StartCalls.source
  cases hpath : calls.path with
  | none => simp
  | some path =>
    dsimp only
    cases hsockets : calls.sockets with
    | error stop =>
      cases stop with
      | code failure => simp
      | fault fault => exact absurd hsockets ((sockets_safe calls).ne_fault fault)
    | ok u =>
      have hiff := keys_fault_iff calls path fault
      rw [ok_bind]
      cases hkeys : calls.keys path with
      | error stop =>
        rw [hkeys] at hiff
        rw [error_bind]
        simp only [Except.error.injEq] at hiff ⊢
        rw [hiff]
        simp
      | ok source =>
        rw [hkeys] at hiff
        rw [ok_bind]
        have hnot : source.load env memory ≠ .error (.fault fault) :=
          (source_load_safe env memory source).ne_fault fault
        simp only [hnot, false_iff]
        rintro ⟨rfl, -, path', hsame, hrest⟩
        obtain rfl := Option.some.inj hsame
        exact absurd (hiff.mpr ⟨rfl, hrest⟩) (by simp)

end Faults

/-! ## The program -/

variable (memory : ℕ → PubKey) (heap : ℕ → ℕ) (verify : PubKey → Bytes → Bytes → Bool)

/-- A start that loads keys. -/
theorem load_eq_ok {calls : StartCalls} {s : KeyStore} {w : World}
    (h : calls.load env memory = .ok (s, w)) : ∃ source, calls.source = .ok source ∧
      loadKeys env memory source .initial = .ok (s, w) ∧ s.keysSize ≠ 0 := by
  unfold StartCalls.load at h
  cases hsource : calls.source with
  | error stop =>
    rw [hsource] at h
    cases h
  | ok source =>
    rw [hsource, ok_bind] at h
    obtain ⟨⟨s', w'⟩, hload, -⟩ := loadKeys_ok env memory source
    unfold Source.load at h
    rw [hload] at h
    change (failIf (s'.keysSize = 0) source.failure >>= fun _ => .ok (s', w')) = _ at h
    unfold failIf at h
    split at h
    · cases h
    · rename_i hne
      obtain ⟨rfl, rfl⟩ := Prod.mk.inj (Except.ok.inj h)
      exact ⟨source, rfl, hload, hne⟩

/-- Whichever way it ends, a start that comes to the load of its keys ends behind it. -/
theorem startServer_loading {calls : StartCalls} {source : Source} {s : KeyStore} {w : World}
    (hsource : calls.source = .ok source)
    (hload : loadKeys env memory source .initial = .ok (s, w)) :
    ((startServer env memory heap calls).exec (.zero start)).2.Loading start [] s w := by
  have hrefines : Refines (startServer env memory heap calls) (.zero start)
      (calls.load env memory) (fun _ t r => Started start t r)
      fun _ t => t.Failed env memory calls start := startServer_refines env memory heap calls
  cases hend : calls.load env memory with
  | ok r =>
    obtain ⟨s', w'⟩ := r
    obtain ⟨source', hsource', hload', -⟩ := load_eq_ok env memory hend
    obtain rfl := Except.ok.inj (hsource.symm.trans hsource')
    obtain ⟨rfl, rfl⟩ := Prod.mk.inj (Except.ok.inj (hload.symm.trans hload'))
    obtain ⟨_, t, hexec, hloading, -⟩ := hrefines.of_ok hend
    rw [hexec]
    exact hloading
  | error stop =>
    obtain ⟨t, hexec, hfailed⟩ := hrefines.of_error hend
    rw [hexec]
    cases stop with
    | code failure => exact (hfailed failure rfl).loading source s w hsource hload
    | fault fault =>
      unfold StartCalls.load at hend
      rw [hsource, ok_bind] at hend
      exact absurd hend ((source_load_safe env memory source).ne_fault fault)

theorem Started.serves {t : Process} {s : KeyStore} {w : World} (h : Started start t (s, w)) :
    (Daemon.start t).Serves start (Server.start s) :=
  ⟨fun _ => h.1.resources.symm, rfl, rfl, if_neg h.2, fun _ => h.1.keeps⟩

/-- With all its system calls and its memory, the program starts as the load of its keys ends,
whatever the system answers: it keeps within its path buffer and reads each file of a directory
under its path, and the only check in it that fails is the assertion on the length of that.  A
handle that was never written and goes to `EVP_PKEY_fromdata` is a further way to fail, which
no check stands for: it is entered in `World.misuses`, and there is none if the loads are
allowed.  Then the program takes exactly the steps of the server with the keys it has loaded. -/
theorem program_refines_server (calls : StartCalls) (start : Holdings) :
    let out := (startServer env memory heap calls).exec (.zero start)
    out.1 = (calls.load env memory >>= fun _ => .ok ()) ∧
      (∀ fault, out.1 = .error (.fault fault) ↔ fault = .assertFailed ∧
        calls.sockets = .ok () ∧ ∃ path, calls.path = some path ∧ path.length ≤ 1 ∧
          calls.isDir path = some true ∧ (calls.opendir path).isSome = true) ∧
      (∀ source s w, calls.source = .ok source → loadKeys env memory source .initial = .ok (s, w) →
        out.2.world = w ∧ (AllowedStart env memory s w source → w.misuses = [])) ∧
      ∀ s w, calls.load env memory = .ok (s, w) → out.2.world = w ∧ ∀ labels,
        (∀ d, Run (fun d l d' => Daemon.step heap verify d l = some d') (.start out.2) labels d →
          ∃ t, Run (fun s l s' => Server.step verify s l = some s') (.start s) labels t ∧
            d.Serves start t) ∧
        ∀ t, Run (fun s l s' => Server.step verify s l = some s') (.start s) labels t →
          ∃ d, Run (fun d l d' => Daemon.step heap verify d l = some d') (.start out.2) labels d ∧
            d.Serves start t := by
  intro out
  have hrefines : Refines (startServer env memory heap calls) (.zero start)
      (calls.load env memory) (fun _ t r => Started start t r)
      fun _ t => t.Failed env memory calls start := startServer_refines env memory heap calls
  have hresult : out.1 = (calls.load env memory >>= fun _ => .ok ()) := by
    cases hload : calls.load env memory with
    | ok r =>
      obtain ⟨_, t, hexec, -⟩ := hrefines.of_ok hload
      exact congrArg Prod.fst hexec
    | error stop =>
      obtain ⟨t, hexec, -⟩ := hrefines.of_error hload
      exact congrArg Prod.fst hexec
  refine ⟨hresult, fun fault => ?_, fun source s w hsource hload => ⟨?_, fun hstart => ?_⟩,
    fun s w hload => ?_⟩
  · rw [← load_fault_iff env memory, hresult]
    cases calls.load env memory with
    | ok r => simp
    | error stop => simp
  · exact (startServer_loading env memory heap hsource hload).world
  · obtain ⟨others, haccounts⟩ := hstart.sound.2.accounts
    exact haccounts.misuses_eq
  · obtain ⟨_, t, hexec, hloading, hne⟩ := hrefines.of_ok hload
    have hout : out.2 = t := congrArg Prod.snd hexec
    rw [hout]
    have hstart := Started.serves ⟨hloading, hne⟩
    exact ⟨hloading.world, fun labels => ⟨fun d hrun => Daemon.lockstep.run hrun hstart,
      fun t hrun => Server.lockstep.run hrun hstart⟩⟩

theorem Process.Loading.keysHeld {s : KeyStore} {w : World} (h : p.Loading start others s w)
    (hfits : s.Fits) : p.KeysHeld s.keysSize s.loaded w where
  holds := by
    have hstore : p.resources.toKeyStore = s := by rw [h.resources]; rfl
    rw [hstore]
    exact s.holds_loaded hfits.size_le
  world := h.world
  keysAt := h.keysAt

/-- The process when `main_protected` has returned: what it holds, the keys it has loaded, and
that they can be freed. -/
structure Process.Left (calls : StartCalls) (start : Holdings) (p : Process) : Prop where
  keeps : p.Keeps start []
  keysHeld : ∀ source s w, calls.source = .ok source →
    loadKeys env memory source .initial = .ok (s, w) → p.KeysHeld s.keysSize s.loaded w
  freeAll_ok : ∃ w', p.resources.freeAll p.world = .ok w' ∧ (p.keysAt = none → w' = p.world)

theorem Process.Failed.left {calls : StartCalls} (h : p.Failed env memory calls start) :
    p.Left env memory calls start where
  keeps := h.keeps
  keysHeld source s w hsource hload := by
    obtain ⟨r, hload', hfits⟩ := loadKeys_ok env memory source
    obtain rfl := Except.ok.inj (hload.symm.trans hload')
    exact (h.loading source s w hsource hload).keysHeld hfits
  freeAll_ok := by
    refine ⟨p.world, ?_, fun _ => rfl⟩
    unfold KeyStore.freeAll KeyStore.loaded
    rw [h.keysSize, List.take_zero]
    rfl

/-- The process when the loop has been left, after any run. -/
theorem Started.left {calls : StartCalls} {source : Source} {s : KeyStore} {w : World}
    {labels : List Label} {d : Daemon} {reason : Exit} (h : Started start p (s, w))
    (hsource : calls.source = .ok source)
    (hkeys : loadKeys env memory source .initial = .ok (s, w))
    (hrun : Run (fun d l d' => Daemon.step heap verify d l = some d') (.start p) labels d)
    (hphase : d.phase = .exited reason) : d.process.Left env memory calls start := by
  obtain ⟨r, hkeys', hfits⟩ := loadKeys_ok env memory source
  obtain rfl := Except.ok.inj (hkeys.symm.trans hkeys')
  obtain ⟨server, -, hserves⟩ := Daemon.lockstep.run hrun h.serves
  have hkept : d.process.KeysHeld s.keysSize s.loaded w :=
    hrun.invariant (I := fun d => d.process.KeysHeld s.keysSize s.loaded w)
      (fun _ _ _ hd hstep => Daemon.step_keysHeld hd hstep) (h.1.keysHeld hfits)
  refine ⟨hserves.keeps (by simp [hphase]), ?_, ?_⟩
  · intro source' s' w' hsource' hload'
    obtain rfl := Except.ok.inj (hsource.symm.trans hsource')
    obtain ⟨rfl, rfl⟩ := Prod.mk.inj (Except.ok.inj (hkeys.symm.trans hload'))
    exact hkept
  · obtain ⟨w', hfree⟩ := freeKeys_ok d.process.resources.loaded (fun key hkey =>
      hfits.algIdx key (hkept.holds.mem_of_loaded hkey)) d.process.world
    refine ⟨w', hfree, fun hnone => ?_⟩
    have hsome := hkept.keysAt
    rw [hnone] at hsome
    cases hsome

theorem mainProtected_left {calls : StartCalls} {labels : List Label}
    (h : mainProtected env memory heap verify calls labels start = some p) :
    p.Left env memory calls start := by
  have hrefines : Refines (startServer env memory heap calls) (.zero start)
      (calls.load env memory) (fun _ t r => Started start t r)
      fun _ t => t.Failed env memory calls start := startServer_refines env memory heap calls
  unfold mainProtected at h
  cases hload : calls.load env memory with
  | error stop =>
    obtain ⟨t, hexec, hfailed⟩ := hrefines.of_error hload
    rw [hexec] at h
    cases stop with
    | code failure =>
      obtain rfl := Option.some.inj h
      exact (hfailed failure rfl).left
    | fault fault => cases h
  | ok r =>
    obtain ⟨s, w⟩ := r
    obtain ⟨source, hsource, hkeys, -⟩ := load_eq_ok env memory hload
    obtain ⟨_, t, hexec, hstarted⟩ := hrefines.of_ok hload
    rw [hexec] at h
    obtain ⟨d, hfold, hend⟩ := Option.bind_eq_some_iff.mp h
    have hrun := (run_iff_foldlM _ _ _ _).mpr hfold
    cases hphase : d.phase with
    | running =>
      rw [hphase] at hend
      cases hend
    | exited reason =>
      rw [hphase] at hend
      obtain rfl := Option.some.inj hend
      exact hstarted.left env memory heap verify hsource hkeys hrun hphase
    | aborted fault =>
      rw [hphase] at hend
      cases hend

/-- Whatever the system answers: if `main_protected` returns, because the start fails or the
loop is left, then so does `main`.  It has given back all descriptors, mappings, directory
streams and blocks of memory that it had been given, each once, and nothing else, unless the
system gave out something that existed, or did so with standard input closed.  Of the objects
of OpenSSL it has freed those of the keys in use, if the loads were allowed; those of the keys
that the server has removed are left behind. -/
theorem resources_returned (calls : StartCalls) (labels : List Label) (start : Holdings)
    (p : Process) (hstdin : StdinOpen start)
    (hreturns : mainProtected env memory heap verify calls labels start = some p) :
    ∃ t, mainReturns env memory heap verify calls labels start = some t ∧
      (t.held.clashes = start.clashes → t.held = start) ∧
      ∀ source s w, calls.source = .ok source → AllowedStart env memory s w source →
        KeysFreed s.loaded p.resources.loaded w t.world := by
  have hleft := mainProtected_left env memory heap verify hreturns
  obtain ⟨w', hfree, hnone⟩ := hleft.freeAll_ok
  obtain ⟨t, hexec, hworld, hbalanced⟩ := freeAll_balanced hleft.keeps hstdin hfree hnone
  have hmain : mainReturns env memory heap verify calls labels start = some t := by
    unfold mainReturns
    simp only [hreturns, Option.bind_eq_bind, Option.bind_some, hexec]
  refine ⟨t, hmain, hbalanced.eq, fun source s w hsource hstart => ?_⟩
  obtain ⟨hload, hsound⟩ := hstart.sound
  rw [hworld]
  exact hsound.keysFreed (hleft.keysHeld source s w hsource hload) hfree

/-! ## Examples -/

/-- A file with these contents, under a free descriptor. -/
def mappedFile (raw : Bytes) (h : raw.length < 2 ^ 63) : FileCalls where
  fd := 5
  size := some raw.length
  mapped := some (4096, fun i => raw.getD i 0)
  now := 0
  size_lt n hn := by
    obtain rfl := Option.mem_some_iff.mp hn
    exact_mod_cast h

theorem shortPath_lt (bytes : Bytes) (h : bytes ∈ some [0x61]) : bytes.length < 2 ^ 63 := by
  obtain rfl := Option.mem_some_iff.mp h
  decide

theorem signing_length_lt :
    (ed25519Certificate epoch signingUsage 0).encode.length < 2 ^ 63 := by
  decide +kernel

/-- A start with one certificate. -/
def oneFile : StartCalls where
  path := some [0x61]
  socket := 3
  bind := true
  listen := true
  epollCreate := 4
  epollCtl := true
  isDir _ := some false
  opendir _ := none
  entries := []
  fileAt _ := mappedFile (ed25519Certificate epoch signingUsage 0).encode signing_length_lt
  path_lt := shortPath_lt

/-- The standard streams are open. -/
def streamsOpen : Holdings where
  live resource :=
    resource = .descriptor 0 ∨ resource = .descriptor 1 ∨ resource = .descriptor 2
  misuses := 0
  clashes := 0

/-- A connection with two bytes is open when `epoll_wait` fails. -/
def twoByteRun : List Label :=
  [.wait [⟨maxInt32, true, false, false, false⟩], .handle ⟨5, true, 0, fun _ => 0, [], 0⟩,
    .wait [⟨0, true, false, false, false⟩], .handle ⟨-1, true, 0, fun _ => 0, [.data [7, 9]], 0⟩,
    .waitFailed]

/-- What is mapped is what the file holds. -/
theorem mappedFile_file (c : Certificate) (h : c.encode.length < 2 ^ 63)
    (hpos : 0 < c.encode.length) : (mappedFile c.encode h).file = certFile c h := by
  have hcells : (List.range c.encode.length).map (fun i => c.encode.getD i 0) = c.encode := by
    refine List.ext_getElem (by simp) fun i hi hi' => ?_
    rw [List.getElem_map, List.getElem_range, List.getD_eq_getElem _ _ hi']
  have hcontents : (mappedFile c.encode h).contents = some c.encode := by
    change (if (c.encode.length : ℤ) ≤ 0 then none
      else some ((List.range c.encode.length).map fun i => c.encode.getD i 0)) = _
    rw [if_neg (by omega), hcells]
  simp only [FileCalls.file, certFile, CertFile.mk.injEq]
  exact ⟨hcontents, rfl⟩

/-- The run gives everything back, and frees no object twice. -/
theorem resources_returned_connection :
    ∃ p t, mainProtected .accepting (fun _ => .unwritten) id (fun _ _ _ => true) oneFile twoByteRun
        streamsOpen = some p ∧
      mainReturns .accepting (fun _ => .unwritten) id (fun _ _ _ => true) oneFile twoByteRun
        streamsOpen = some t ∧
      t.held = streamsOpen ∧ t.world.misuses = [] := by
  have hsome : (mainProtected .accepting (fun _ => .unwritten) id (fun _ _ _ => true) oneFile
      twoByteRun streamsOpen).isSome = true := by
    decide +kernel
  have hend : (mainReturns .accepting (fun _ => .unwritten) id (fun _ _ _ => true) oneFile
      twoByteRun streamsOpen).map (fun t => t.held.clashes) = some 0 := by
    decide +kernel
  obtain ⟨s, w, hstart⟩ := exists_allowedStart .accepting (fun _ => .unwritten) ed25519File
    fun slot => readAllowed_of_ne .accepting _ _ (by decide +kernel) slot .initial
  have hsource : oneFile.source = .ok (.file ed25519File) :=
    congrArg (fun file => Except.ok (Source.file file))
      (mappedFile_file _ signing_length_lt (by decide +kernel))
  obtain ⟨p, hreturns⟩ := Option.isSome_iff_exists.mp hsome
  obtain ⟨t, hmain, hheld, hfreed⟩ := resources_returned .accepting (fun _ => .unwritten) id
    (fun _ _ _ => true) oneFile twoByteRun streamsOpen p rfl hreturns
  rw [hmain] at hend
  exact ⟨p, t, hreturns, hmain, hheld (Option.some.inj hend), (hfreed _ s w hsource hstart).once⟩

end X509Server
