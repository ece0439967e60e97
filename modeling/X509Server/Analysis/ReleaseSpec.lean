import X509Server.Analysis.AuthSpec
import X509Server.Analysis.ProcessSpec
import X509Server.Analysis.StoreSpec

/-!
# Giving everything back

The keys that a process has loaded stay in its array, those in use in front of those that it
has removed (`Process.KeysHeld`), whatever ends the loop.  `free_all` frees the objects of the
keys in use, each once, and of no others (`KeyStore.Serving.freeAll_live`), and whatever else
the process holds (`freeAll_balanced`).
-/

set_option autoImplicit false

namespace X509Server

open Checked Ledgers Stateful

variable {ε : Type} {p : Process} {n : ℕ} {keys : List PubKey} {w : World}

/-! ## The keys of a running process -/

/-- The first slots of the array hold the keys that were loaded. -/
structure Process.KeysHeld (n : ℕ) (keys : List PubKey) (w : World) (p : Process) : Prop where
  holds : p.resources.toKeyStore.Holds n keys
  world : p.world = w
  keysAt : p.keysAt.isSome = true

section Running

theorem setResources_preserves {r : Resources} (hr : r.toKeyStore.Holds n keys) :
    Preserves (setResources r) (Process.KeysHeld n keys w) :=
  preserves_modify fun _ h => ⟨hr, h.world, h.keysAt⟩

theorem release_preserves (resource : Resource) :
    Preserves (release resource : Program ε Unit) (Process.KeysHeld n keys w) :=
  preserves_modify fun _ h => ⟨h.holds, h.world, h.keysAt⟩

theorem acquire_preserves (resource : Resource) :
    Preserves (acquire resource : Program ε Unit) (Process.KeysHeld n keys w) :=
  preserves_modify fun _ h => ⟨h.holds, h.world, h.keysAt⟩

theorem malloc_preserves (heap : ℕ → ℕ) :
    Preserves (malloc heap : Program ε ℕ) (Process.KeysHeld n keys w) := by
  refine preserves_get fun p _ => Preserves.bind ?_ fun _ => ?_
  · exact preserves_modify fun _ h => ⟨h.holds, h.world, h.keysAt⟩
  · exact (acquire_preserves _).bind fun _ => preserves_pure _

theorem realloc_preserves (heap : ℕ → ℕ) (address : Option ℕ) :
    Preserves (realloc heap address : Program ε ℕ) (Process.KeysHeld n keys w) := by
  refine Preserves.bind ?_ fun _ => malloc_preserves heap
  cases address with
  | none => exact preserves_pure ()
  | some address => exact release_preserves _

theorem freeConn_keys {r r' : Resources} {i : ℕ} {closed : List Observation}
    (h : r.freeConn i = .ok (r', closed)) : r'.toKeyStore = r.toKeyStore := by
  cases hconn : connAt r.conns i with
  | error stop =>
    unfold Resources.freeConn at h
    rw [hconn] at h
    cases h
  | ok conn =>
    obtain ⟨total, -, heq⟩ := (freeConn_self (E := fun _ => True) (connAt_ok hconn)).of_ok h
    obtain ⟨rfl, -⟩ := Prod.mk.inj heq
    rfl

theorem closeConn_preserves (i : ℕ) : Preserves (closeConn i) (Process.KeysHeld n keys w) := by
  refine preserves_get fun p hp => preserves_lift fun conn _ => ?_
  refine (release_preserves _).bind fun _ => preserves_lift fun out hfree => ?_
  obtain ⟨r, closed⟩ := out
  have hr : r.toKeyStore.Holds n keys := by
    rw [freeConn_keys hfree]
    exact hp.holds
  exact (setResources_preserves hr).bind fun _ => preserves_pure _

theorem evictConn_preserves : Preserves evictConn (Process.KeysHeld n keys w) := by
  refine preserves_get fun p hp => ?_
  split
  · cases oldest p.resources.conns with
    | none => exact preserves_throw _
    | some i => exact closeConn_preserves i
  · exact preserves_pure _

variable {heap : ℕ → ℕ}

theorem allocateBuf_preserves (i : ℕ) :
    Preserves (allocateBuf heap i) (Process.KeysHeld n keys w) := by
  refine preserves_get fun p hp => ?_
  split
  · refine (malloc_preserves heap).bind fun address => ?_
    exact preserves_modify fun _ h => ⟨h.holds, h.world, h.keysAt⟩
  · exact preserves_pure _

theorem growBuf_preserves (i : ℕ) (conn : Connection) :
    Preserves (growBuf heap i conn) (Process.KeysHeld n keys w) := by
  refine preserves_get fun p hp => ?_
  split
  · refine (realloc_preserves heap _).bind fun address => ?_
    exact preserves_modify fun _ h => ⟨h.holds, h.world, h.keysAt⟩
  · exact preserves_pure _

theorem registerConn_preserves (a : Answers) :
    Preserves (registerConn heap a) (Process.KeysHeld n keys w) := by
  refine preserves_get fun p hp => ?_
  refine (setResources_preserves (by exact hp.holds)).bind fun _ => ?_
  dsimp only
  cases p.resources.conns.findIdx? fun conn => decide (conn.fd ≤ 0) with
  | none => exact preserves_lift fun _ _ => preserves_pure _
  | some i =>
    refine preserves_lift fun conn _ => ?_
    split
    · refine (release_preserves _).bind fun _ => ?_
      exact preserves_lift fun _ _ => preserves_pure _
    · refine (allocateBuf_preserves i).bind fun _ => ?_
      exact (setResources_preserves (by exact hp.holds)).bind fun _ => preserves_pure _

theorem serveAccept_preserves (a : Answers) :
    Preserves (serveAccept heap a) (Process.KeysHeld n keys w) := by
  refine evictConn_preserves.bind fun evicted => ?_
  split
  · exact preserves_pure _
  · refine (acquire_preserves _).bind fun _ => ?_
    exact (registerConn_preserves a).bind fun _ => preserves_pure _

theorem recvConn_preserves (slot : ℕ) (results : List RecvResult) :
    Preserves (recvConn heap slot results) (Process.KeysHeld n keys w) := by
  induction results with
  | nil => exact preserves_pure _
  | cons result results ih =>
    cases result with
    | failed again => exact preserves_pure _
    | data available =>
      refine preserves_get fun p hp => preserves_lift fun conn _ => preserves_lift fun room _ => ?_
      dsimp only
      split
      · exact preserves_pure _
      split
      · exact preserves_throw _
      refine (setResources_preserves (by exact hp.holds)).bind fun _ => ?_
      split
      · exact preserves_pure _
      · refine (growBuf_preserves slot _).bind fun _ => ?_
        refine (setResources_preserves (by exact hp.holds)).bind fun _ => ?_
        exact ih.bind fun _ => preserves_pure _

theorem serveReceive_preserves (slot : ℕ) (e : Event) (a : Answers) :
    Preserves (serveReceive heap slot e a) (Process.KeysHeld n keys w) := by
  unfold serveReceive
  split
  · refine (recvConn_preserves slot a.recvs).bind fun out => ?_
    obtain ⟨dropped, chunks⟩ := out
    dsimp only
    split
    · exact (closeConn_preserves slot).bind fun _ => preserves_pure _
    · exact preserves_pure _
  · exact preserves_pure _

variable {verify : PubKey → Bytes → Bytes → Bool}

/-- A removal exchanges two slots that hold loaded keys. -/
theorem searchKeys_preserves {now : ℤ} {buf : Bytes} {bound fuel i : ℕ} (hbound : bound ≤ n) :
    Preserves (searchKeys verify now buf bound fuel i) (Process.KeysHeld n keys w) := by
  induction fuel generalizing i with
  | zero => exact preserves_throw _
  | succ fuel ih =>
    unfold searchKeys
    split
    · rename_i hi
      refine preserves_get fun p hp => preserves_lift fun key _ => ?_
      split
      · split
        · rename_i hmany
          obtain ⟨s, hremove, hsize, hlength, hperm, -⟩ :=
            p.resources.toKeyStore.swapRemove_spec Exit (i := i) (Nat.lt_of_lt_of_le hi hbound)
              (by omega) hp.holds.size_le hp.holds.length_le
          have hholds : s.Holds n keys := by
            have hle := hp.holds.size_le
            exact ⟨by omega, hlength ▸ hp.holds.length_le, hperm.trans hp.holds.perm⟩
          refine preserves_lift fun s' hs' => ?_
          obtain rfl : s = s' := Except.ok.inj (hremove.symm.trans hs')
          refine Preserves.bind ?_ fun _ => ih
          exact preserves_modify fun _ h => ⟨hholds, h.world, h.keysAt⟩
        · exact preserves_throw _
      · refine preserves_lift fun script _ => ?_
        cases script with
        | some script => exact preserves_pure _
        | none => exact ih
    · exact preserves_pure _

theorem serveTermination_preserves (slot : ℕ) (e : Event) (a : Answers) :
    Preserves (serveTermination verify slot e a) (Process.KeysHeld n keys w) := by
  refine preserves_get fun p hp => preserves_lift fun conn _ => ?_
  split
  · refine (searchKeys_preserves hp.holds.size_le).bind fun script => ?_
    cases script with
    | some script =>
      refine preserves_get fun p hp => (setResources_preserves (by exact hp.holds)).bind fun _ => ?_
      exact (closeConn_preserves slot).bind fun _ => preserves_pure _
    | none => exact (closeConn_preserves slot).bind fun _ => preserves_pure _
  · exact preserves_pure _

theorem serveConn_preserves (slot : ℕ) (e : Event) (a : Answers) :
    Preserves (serveConn heap verify slot e a) (Process.KeysHeld n keys w) := by
  refine preserves_get fun p hp => preserves_lift fun conn _ => preserves_lift fun _ _ => ?_
  refine (serveReceive_preserves slot e a).bind fun _ => ?_
  refine (serveTermination_preserves slot e a).bind fun _ => Preserves.bind ?_ fun _ => ?_
  · refine preserves_get fun p hp => preserves_lift fun conn _ => ?_
    split
    · exact closeConn_preserves slot
    · exact preserves_pure _
  · exact preserves_pure _

/-- Whichever way an event ends, the keys are still there. -/
theorem serveEvent_preserves (e : Event) (a : Answers) :
    Preserves (serveEvent heap verify e a) (Process.KeysHeld n keys w) := by
  unfold serveEvent
  split
  · exact serveAccept_preserves a
  split
  · exact serveConn_preserves e.data e a
  · exact preserves_throw _

theorem Daemon.step_keysHeld {d d' : Daemon} {l : Label}
    (h : d.process.KeysHeld n keys w) (hstep : d.step heap verify l = some d') :
    d'.process.KeysHeld n keys w := by
  cases l with
  | waitFailed =>
    unfold Daemon.step at hstep
    dsimp only at hstep
    split at hstep
    · obtain rfl := Option.some.inj hstep
      exact h
    · cases hstep
  | wait events =>
    unfold Daemon.step at hstep
    dsimp only at hstep
    split at hstep
    · obtain rfl := Option.some.inj hstep
      exact h
    · cases hstep
  | handle a =>
    unfold Daemon.step at hstep
    cases hpending : d.pending with
    | nil =>
      rw [hpending] at hstep
      cases hstep
    | cons e events =>
      rw [hpending] at hstep
      dsimp only at hstep
      split at hstep
      · obtain rfl := Option.some.inj hstep
        have hkeeps : Preserves (serveEvent heap verify e a) (Process.KeysHeld n keys w) :=
          serveEvent_preserves e a
        have hkept := hkeeps d.process h
        generalize (serveEvent heap verify e a).exec d.process = out at hkept
        obtain ⟨result, t⟩ := out
        cases result with
        | ok obs => exact hkept
        | error stop => cases stop <;> exact hkept
      · cases hstep

end Running

/-! ## The objects of OpenSSL -/

/-- The keys in use of a process that has loaded sound ones. -/
theorem Process.KeysHeld.serving (h : p.KeysHeld n keys w) (hready : ∀ key ∈ keys, key.Ready)
    (haccounts : ∃ others, w.Accounts others (handlesOf keys) []) :
    p.resources.toKeyStore.Serving n p.world where
  size_le := h.holds.size_le
  length_le := h.holds.length_le
  ready key hkey := hready key (h.holds.perm.mem_iff.mp hkey)
  accounts := by
    obtain ⟨others, haccounts⟩ := haccounts
    rw [h.world]
    exact ⟨others, haccounts.perm (h.holds.perm.symm.flatMap_right PubKey.handles)⟩

/-- The objects of a part of the keys, told from those of the others. -/
theorem World.Accounts.left_iff {others : ℕ → Prop} {kept removed : List PubKey}
    {misuses : List Misuse} (h : w.Accounts others (handlesOf (kept ++ removed)) misuses)
    (object : ℕ) : w.live object = true ∧ object ∉ handlesOf kept ↔
      (w.live object = true ∧ object ∉ handlesOf (kept ++ removed)) ∨
        object ∈ handlesOf removed := by
  rw [handlesOf_append] at h ⊢
  have honce := (List.nodup_append'.mp h.ledger.nodup).2.2
  constructor
  · rintro ⟨hlive, hnot⟩
    by_cases hmem : object ∈ handlesOf removed
    · exact Or.inr hmem
    · exact Or.inl ⟨hlive, by simp [hnot, hmem]⟩
  · rintro (⟨hlive, hnot⟩ | hmem)
    · exact ⟨hlive, fun hkept => hnot (List.mem_append_left _ hkept)⟩
    · exact ⟨h.ledger.live_of_mem (List.mem_append_right _ hmem), fun hkept => honce hkept hmem⟩

/-- `free_all` frees the keys in use of a process that has loaded sound ones. -/
theorem KeyStore.Sound.keysFreed {s : KeyStore} {w w' : World} (h : s.Sound w)
    (hkept : p.KeysHeld s.keysSize s.loaded w) (hfree : p.resources.freeAll p.world = .ok w') :
    KeysFreed s.loaded p.resources.loaded w w' := by
  obtain ⟨hclean, hlive⟩ := (hkept.serving h.ready h.accounts).freeAll.of_ok hfree
  have hperm := hkept.holds.split.symm
  obtain ⟨others, haccounts⟩ := h.accounts
  refine ⟨hclean, _, hperm, fun object => ?_⟩
  have hleft := (haccounts.perm (hperm.flatMap_right PubKey.handles)).left_iff object
  have hmem : object ∈ handlesOf s.loaded ↔ object ∈ handlesOf (p.resources.loaded ++ _) :=
    (hperm.flatMap_right PubKey.handles).mem_iff
  rw [hlive, hkept.world, hleft, hmem]

/-- The assertion in `pub_key_free` holds for slots with an entry of the table. -/
theorem freeKeys_ok (keys : List PubKey) (h : ∀ key ∈ keys, key.algIdx < supportedAlgs.length)
    (w : World) : ∃ w', freeKeys keys w = .ok w' := by
  induction keys generalizing w with
  | nil => exact ⟨w, rfl⟩
  | cons key keys ih =>
    obtain ⟨w', hfree, -⟩ := (pubKeyFree_safe w (h key (by simp))).exists_ok
    unfold freeKeys
    rw [hfree, ok_bind]
    exact ih (fun key hkey => h key (List.mem_cons_of_mem _ hkey)) w'

/-! ## `free_all` -/

/-- A part of the program that gives back these things, one after the other, and does nothing
else. -/
def Releases (m : Program Empty Unit) (released : List Resource) : Prop :=
  ∀ s, m.exec s = (.ok (), { s with held := released.foldl Account.release s.held })

theorem Releases.seq {m m' : Program Empty Unit} {released released' : List Resource}
    (h : Releases m released) (h' : Releases m' released') :
    Releases (m >>= fun _ => m') (released ++ released') := by
  intro s
  rw [Task.exec_bind_ok (h s), List.foldl_append]
  exact h' _

theorem closeOpen_releases (fd : ℤ) : Releases (closeOpen fd) (fdHoldings fd) := by
  intro s
  unfold closeOpen fdHoldings
  split
  · rfl
  · rfl

theorem free_releases (address : Option ℕ) : Releases (free address) (blockHoldings address) := by
  intro s
  cases address with
  | none => rfl
  | some address => rfl

theorem freeConns_releases (conns : List (Connection × Option ℕ)) :
    Releases (freeConns conns)
      (conns.flatMap fun slot => fdHoldings slot.1.fd ++ blockHoldings slot.2) := by
  induction conns with
  | nil => exact fun s => rfl
  | cons slot conns ih =>
    have hslot := (closeOpen_releases slot.1.fd).seq ((free_releases slot.2).seq ih)
    rwa [← List.append_assoc] at hslot

/-- The key array, if there is one. -/
theorem freeKeyArray_exec {w' : World} (hfree : p.resources.freeAll p.world = .ok w')
    (hnone : p.keysAt = none → w' = p.world) :
    freeKeyArray.exec p = (.ok (), { p with
      world := w', held := (blockHoldings p.keysAt).foldl Account.release p.held }) := by
  obtain ⟨epollFd, socketFd, keysAt, bufsAt, resources, world, allocations, held⟩ := p
  cases keysAt with
  | none =>
    obtain rfl := hnone rfl
    rfl
  | some address =>
    unfold freeKeyArray
    rw [Task.exec_get]
    exact Task.exec_lift hfree _ _

/-- Pair by pair the same as one list behind the other. -/
theorem zip_flatMap_perm {α β γ : Type} [DecidableEq γ] (f : α → List γ) (g : β → List γ)
    {xs : List α} {ys : List β} (h : ys.length = xs.length) :
    ((xs.zip ys).flatMap fun pair => f pair.1 ++ g pair.2).Perm
      (xs.flatMap f ++ ys.flatMap g) := by
  induction xs generalizing ys with
  | nil =>
    obtain rfl := List.length_eq_zero_iff.mp h
    exact .refl _
  | cons x xs ih =>
    obtain ⟨y, ys, rfl⟩ := List.exists_cons_of_length_eq_add_one h
    have hrest := ih (Nat.succ.inj h)
    apply List.perm_iff_count.mpr
    intro a
    have hcount := hrest.count_eq a
    simp only [List.zip_cons_cons, List.flatMap_cons, List.count_append] at hcount ⊢
    omega

/-- `free_all` gives back what the process holds, if the keys can be freed. -/
theorem freeAll_balanced {start : Holdings} {w' : World} (h : p.Keeps start [])
    (hstdin : StdinOpen start) (hfree : p.resources.freeAll p.world = .ok w')
    (hnone : p.keysAt = none → w' = p.world) :
    ∃ t, freeAll.exec p = (.ok (), t) ∧ t.world = w' ∧ start.Balanced t.held [] := by
  have hexec : freeAll.exec p = (.ok (), { Process.zero ((fdHoldings p.epollFd ++
      (fdHoldings p.socketFd ++ (blockHoldings p.keysAt ++
        (p.resources.conns.zip p.bufsAt).flatMap fun slot =>
          fdHoldings slot.1.fd ++ blockHoldings slot.2))).foldl Account.release p.held) with
      world := w', allocations := p.allocations }) := by
    have hkeys := freeKeyArray_exec (p := { p with
      held := (fdHoldings p.socketFd).foldl Account.release
        ((fdHoldings p.epollFd).foldl Account.release p.held) }) hfree hnone
    unfold freeAll
    rw [Task.exec_get, Task.exec_bind_ok (closeOpen_releases _ _),
      Task.exec_bind_ok (closeOpen_releases _ _), Task.exec_bind_ok hkeys,
      Task.exec_bind_ok (freeConns_releases _ _)]
    simp only [List.foldl_append]
    rfl
  refine ⟨_, hexec, rfl, ?_⟩
  apply Account.Balanced.releaseAll
  rw [List.append_nil]
  apply (h.balanced hstdin).perm
  unfold Process.holdings
  have hslots := zip_flatMap_perm (fun conn : Connection => fdHoldings conn.fd) blockHoldings
    h.length_eq
  exact (((hslots.symm.append_left _).append_left _).append_left _)

end X509Server
