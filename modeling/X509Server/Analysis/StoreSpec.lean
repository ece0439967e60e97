import X509Server.Analysis.KeySpec
import X509Server.Analysis.LoadSpec

/-!
# The key array over its life

The invariant of the key array while the directory is read (`KeyStore.Sound`) and while the
server runs (`KeyStore.Serving`).  Together they say that no handle is used that was never
written or whose object is gone, in every run whose loads are allowed: the one place where
the program does use such a handle is `EVP_PKEY_fromdata` on the slot of the next key.
-/

set_option autoImplicit false

namespace X509Server

open Checked Ledgers Runs

section Store

variable (env : OpenSsl)

/-! ## The key array -/

theorem handlesOf_append (keys keys' : List PubKey) :
    handlesOf (keys ++ keys') = handlesOf keys ++ handlesOf keys' := List.flatMap_append

/-- The objects of one slot, and those of the rest. -/
theorem handlesOf_perm {keys : List PubKey} {key : PubKey} (h : key ∈ keys) :
    ∃ rest, (handlesOf keys).Perm (key.handles ++ rest) :=
  ⟨handlesOf (keys.erase key), (List.perm_cons_erase h).flatMap_right PubKey.handles⟩

/-- The key array between two files: the accepted slots are ready and hold their objects, the
slot that comes next is apart from them, and nothing has been written behind it. -/
structure KeyStore.Sound (s : KeyStore) (w : World) : Prop where
  size_le : s.keysSize ≤ s.keys.length
  pos : 0 < s.keys.length
  ready : ∀ key ∈ s.loaded, key.Ready
  apart : ∀ slot, s.keys[s.keysSize]? = some slot → slot.Apart (· ∈ handlesOf s.loaded)
  fresh : ∀ key ∈ s.keys.drop (s.keysSize + 1), key.openssl.pkey.written = false
  accounts : ∃ others, w.Accounts others (handlesOf s.loaded) []

variable (memory : ℕ → PubKey)

theorem indeterminate_written {n : ℕ} {key : PubKey}
    (h : key ∈ (List.range n).map fun i => (memory i).indeterminate) :
    key.openssl.pkey.written = false := by
  obtain ⟨i, -, rfl⟩ := List.mem_map.mp h
  rfl

theorem World.initial_accounts : World.initial.Accounts (fun _ => False) [] [] where
  ledger := ⟨by simp [World.initial], List.nodup_nil, by simp⟩
  given := by simp [World.initial]
  next_pos := by decide
  misuses_eq := rfl

theorem KeyStore.malloc_sound : (KeyStore.malloc memory).Sound .initial where
  size_le := Nat.zero_le _
  pos := by simp [KeyStore.malloc]
  ready := by simp [KeyStore.loaded, KeyStore.malloc]
  apart := by simp [KeyStore.loaded, KeyStore.malloc, PubKey.Apart, handlesOf]
  fresh key hkey := indeterminate_written memory (List.mem_of_mem_drop hkey)
  accounts := ⟨_, World.initial_accounts⟩

/-- Growing the array keeps it sound, and leaves a slot for the next file. -/
theorem KeyStore.Sound.reserve {s : KeyStore} {w : World} (h : s.Sound w) :
    (s.reserve memory).Sound w ∧ s.keysSize < (s.reserve memory).keys.length := by
  have hpos := h.pos
  have hle := h.size_le
  unfold KeyStore.reserve
  split
  · rename_i hfull
    have heq : s.keysSize = s.keys.length := by omega
    have hnew {key : PubKey} {n m : ℕ} (hkey : key ∈ ((List.range n).map fun i =>
        (memory (m + i)).indeterminate)) : key.openssl.pkey.written = false := by
      obtain ⟨i, -, rfl⟩ := List.mem_map.mp hkey
      rfl
    have hloaded : (KeyStore.mk (s.keys ++ (List.range s.keys.length).map fun i =>
        (memory (s.keys.length + i)).indeterminate) s.keysSize).loaded = s.loaded :=
      List.take_append_of_le_length hle
    refine ⟨⟨?_, ?_, hloaded ▸ h.ready, ?_, ?_, hloaded ▸ h.accounts⟩, ?_⟩
    · simp
      omega
    · simp
      omega
    · intro slot hslot hwritten
      dsimp only at hslot
      rw [List.getElem?_append_right (by omega)] at hslot
      exact absurd (hnew (List.mem_of_getElem? hslot)) (by simp [hwritten])
    · intro key hkey
      dsimp only at hkey
      rw [List.drop_append, List.drop_eq_nil_of_le (by omega), List.nil_append] at hkey
      exact hnew (List.mem_of_mem_drop hkey)
    · simp
      omega
  · exact ⟨h, by omega⟩

/-- Before a file is read, the objects of the keys in use become others' objects, and a leftover
of the next slot is held. -/
theorem World.Accounts.leftover {others : ℕ → Prop} {keys : List PubKey} {slot : PubKey}
    {w : World} (h : w.Accounts others (handlesOf keys) [])
    (hapart : slot.Apart (· ∈ handlesOf keys)) :
    ∃ others' held, w.Accounts others' held [] ∧ (∀ a ∈ handlesOf keys, others' a) ∧
      slot.Apart others' ∧ (w.live slot.openssl.pkey.value = true →
        slot.openssl.pkey.written = true → slot.openssl.pkey.value ∈ held) := by
  rw [← List.append_nil (handlesOf keys)] at h
  obtain ⟨-, h1⟩ := World.Accounts.frame_iff.mp h
  by_cases hleft : w.live slot.openssl.pkey.value = true ∧ slot.openssl.pkey.written = true
  · have hothers := (h1.ledger.live_iff _).mp hleft.1
    have h2 := h1.claim (List.nodup_singleton slot.openssl.pkey.value) (by
      intro a ha
      obtain rfl := List.mem_singleton.mp ha
      exact hothers.resolve_right (by simp))
    refine ⟨_, _, h2, ?_, fun _ hmem => hmem.2 (by simp), fun _ _ => by simp⟩
    intro a ha
    refine ⟨Or.inr ha, fun hmem => ?_⟩
    obtain rfl := List.mem_singleton.mp hmem
    exact hapart hleft.2 ha
  · refine ⟨_, _, h1, fun a ha => Or.inr ha, fun hwritten hmem => ?_, fun hlive hwritten => ?_⟩
    · exact hleft ⟨h1.ledger.live_of_others hmem, hwritten⟩
    · exact absurd ⟨hlive, hwritten⟩ hleft

/-- The slots behind the one that is stored to. -/
theorem drop_set_succ (keys : List PubKey) (n : ℕ) (pub : PubKey) :
    (keys.set n pub).drop (n + 1) = keys.drop (n + 1) :=
  List.drop_set_of_lt (Nat.lt_succ_self n)

/-- An accepted slot comes into use. -/
theorem KeyStore.Sound.accept {s : KeyStore} {w w' : World} (h : s.Sound w)
    (hlt : s.keysSize < s.keys.length) {pub : PubKey} (hready : pub.Ready)
    (haccounts : ∃ others, w'.Accounts others (handlesOf s.loaded ++ pub.handles) []) :
    (KeyStore.mk (s.keys.set s.keysSize pub) (s.keysSize + 1)).Sound w' := by
  have hloaded : (KeyStore.mk (s.keys.set s.keysSize pub) (s.keysSize + 1)).loaded =
      s.loaded ++ [pub] := loaded_set_succ hlt pub
  have hlength : (s.keys.set s.keysSize pub).length = s.keys.length := List.length_set
  have hfresh : ∀ key ∈ (s.keys.set s.keysSize pub).drop (s.keysSize + 1),
      key.openssl.pkey.written = false := by
    rw [drop_set_succ]
    exact h.fresh
  refine ⟨?_, ?_, ?_, ?_, ?_, ?_⟩
  · dsimp only
    omega
  · dsimp only
    omega
  · intro key hkey
    rw [hloaded] at hkey
    rcases List.mem_append.mp hkey with hkey | hkey
    · exact h.ready key hkey
    · obtain rfl := List.mem_singleton.mp hkey
      exact hready
  · intro slot hslot hwritten
    have hmem : slot ∈ (s.keys.set s.keysSize pub).drop (s.keysSize + 1) := by
      apply List.mem_of_getElem? (i := 0)
      rw [List.getElem?_drop]
      exact hslot
    exact absurd (hfresh slot hmem) (by simp [hwritten])
  · intro key hkey
    dsimp only at hkey
    rw [← List.drop_drop] at hkey
    exact hfresh key (List.mem_of_mem_drop hkey)
  · have hhandles : handlesOf (s.loaded ++ [pub]) = handlesOf s.loaded ++ pub.handles := by
      rw [handlesOf_append]
      simp [handlesOf]
    rw [hloaded, hhandles]
    exact haccounts

/-- A slot that was not accepted is apart from the keys in use. -/
theorem KeyStore.Sound.reject {s : KeyStore} {w w' : World} (h : s.Sound w)
    (hlt : s.keysSize < s.keys.length) {pub : PubKey}
    (hapart : pub.Apart (· ∈ handlesOf s.loaded))
    (haccounts : ∃ others, w'.Accounts others (handlesOf s.loaded) []) :
    (KeyStore.mk (s.keys.set s.keysSize pub) s.keysSize).Sound w' := by
  have hloaded : (KeyStore.mk (s.keys.set s.keysSize pub) s.keysSize).loaded = s.loaded :=
    loaded_set s.keys s.keysSize pub
  have hlength : (s.keys.set s.keysSize pub).length = s.keys.length := List.length_set
  refine ⟨?_, ?_, ?_, ?_, ?_, ?_⟩
  · dsimp only
    omega
  · dsimp only
    omega
  · rw [hloaded]
    exact h.ready
  · intro slot hslot
    dsimp only at hslot
    rw [List.getElem?_set_self hlt] at hslot
    obtain rfl := Option.some.inj hslot
    rw [hloaded]
    exact hapart
  · dsimp only
    rw [drop_set_succ]
    exact h.fresh
  · rw [hloaded]
    exact haccounts

/-- Reading a file into the next slot keeps the array sound. -/
theorem KeyStore.Sound.read {s : KeyStore} {w : World} (h : s.Sound w)
    (hlt : s.keysSize < s.keys.length) (file : CertFile)
    (hallowed : ∀ slot, s.keys[s.keysSize]? = some slot → ReadAllowed env file slot w) :
    Safe (s.read env file w) fun r => r.1.Sound r.2 := by
  obtain ⟨others, haccounts⟩ := h.accounts
  have hslot : s.keys[s.keysSize]? = some s.keys[s.keysSize] := List.getElem?_eq_getElem hlt
  generalize s.keys[s.keysSize] = slot at hslot
  obtain ⟨others', held, h1, hkeys, hpub, hheld⟩ := haccounts.leftover (h.apart slot hslot)
  unfold KeyStore.read slotAt
  rw [hslot]
  dsimp only
  rw [ok_bind]
  refine Safe.bind (readCert_settled env file h1 hpub (hallowed slot hslot) hheld) ?_
  rintro ⟨accepted, pub, w'⟩ ⟨code, hcode, ⟨held', h2, hok⟩, hapart⟩
  dsimp only at hcode h2 hok hapart ⊢
  have h3 := h2.claim haccounts.ledger.nodup hkeys
  cases accepted with
  | true =>
    obtain ⟨hready, rest, hperm⟩ := hok (hcode.mp rfl)
    -- what else is held is a leftover, and goes to the others
    have hrest : (handlesOf s.loaded ++ held').Perm
        (rest ++ (handlesOf s.loaded ++ pub.handles)) := by
      refine (hperm.append_left _).trans ?_
      rw [← List.append_assoc]
      exact List.perm_append_comm
    exact h.accept hlt hready ⟨_, (World.Accounts.frame_iff.mp (h3.perm hrest)).2⟩
  | false =>
    have h4 := h3.perm List.perm_append_comm
    have hapart' : pub.Apart (· ∈ handlesOf s.loaded) :=
      fun hwritten hmem => hapart hwritten (hkeys _ hmem)
    exact h.reject hlt hapart' ⟨_, (World.Accounts.frame_iff.mp h4).2⟩

/-- A turn of the directory loop that is allowed keeps the array sound. -/
theorem loadEntry_sound {s : KeyStore} {w : World} (h : s.Sound w) (entry : DirEntry)
    (hallowed : LoadAllowed env memory entry s w) :
    Safe (loadEntry env memory entry s w) fun r => r.1.Sound r.2 := by
  have hsize := s.reserve_keysSize memory
  obtain ⟨hreserve, hlt⟩ := h.reserve memory
  unfold loadEntry
  refine Safe.ite (fun _ => h) fun _ => ?_
  refine hreserve.read env (hsize ▸ hlt) entry.file fun slot hslot => ?_
  exact hallowed slot (hsize ▸ hslot)

/-- A run of the directory loop whose turns are all allowed. -/
theorem loadRun_sound {entries : List DirEntry} {s : KeyStore} {w : World}
    (h : Run (LoadStep env memory) (.malloc memory, .initial) entries (s, w)) : s.Sound w := by
  refine h.invariant (I := fun r => r.1.Sound r.2) ?_ (KeyStore.malloc_sound memory)
  rintro ⟨s, w⟩ entry ⟨s', w'⟩ hs ⟨hallowed, hstep⟩
  exact (loadEntry_sound env memory hs entry hallowed).of_ok hstep

/-- The directory loop is the run of its turns. -/
theorem run_iff_loadDirectory (entries : List DirEntry) (s t : KeyStore × World) :
    Run (fun s entry t => loadEntry env memory entry s.1 s.2 = .ok t) s entries t ↔
      loadDirectory env memory entries s.1 s.2 = .ok t := by
  induction entries generalizing s with
  | nil =>
    constructor
    · rintro ⟨⟩
      rfl
    · intro h
      obtain rfl := Except.ok.inj h
      exact .nil s
  | cons entry entries ih =>
    unfold loadDirectory
    constructor
    · intro h
      cases h with
      | cons head tail =>
        rw [head, ok_bind]
        exact (ih _).mp tail
    · intro h
      cases hentry : loadEntry env memory entry s.1 s.2 with
      | error stop =>
        rw [hentry] at h
        cases h
      | ok u =>
        rw [hentry, ok_bind] at h
        exact .cons hentry ((ih u).mpr h)

/-- An allowed start ends in the state `loadKeys` computes, with a sound array. -/
theorem AllowedStart.sound {source : Source} {s : KeyStore} {w : World}
    (h : AllowedStart env memory s w source) :
    loadKeys env memory source .initial = .ok (s, w) ∧ s.Sound w := by
  cases source with
  | directory entries =>
    refine ⟨?_, loadRun_sound env memory h⟩
    exact (run_iff_loadDirectory env memory entries _ _).mp (h.mono fun _ _ _ hstep => hstep.2)
  | file file =>
    refine ⟨h.2, ?_⟩
    exact ((KeyStore.malloc_sound memory).read env (show 0 < 4 by decide) file h.1).of_ok h.2

/-! ## Any load -/

/-- A key that is accepted has an entry of the table of algorithms. -/
theorem readCert_safe (file : CertFile) (pub : PubKey) (w : World) :
    Safe (readCert env file pub w) fun r =>
      r.1 = true → r.2.1.algIdx < supportedAlgs.length := by
  unfold readCert
  cases hcontents : file.contents with
  | none => exact (nomatch ·)
  | some raw =>
    dsimp only
    have hlen := file.size_lt raw hcontents
    refine Safe.ite (fun _ => (nomatch ·)) fun _ => ?_
    cases hparse : parseX509 raw .zero with
    | error stop =>
      cases stop with
      | code code => exact (nomatch ·)
      | fault fault => exact absurd hparse ((parseX509_safe raw .zero hlen).ne_fault fault)
    | ok fields =>
      obtain ⟨c, rfl, rfl⟩ := (parseX509_ok_iff raw .zero fields hlen).mp hparse
      refine (extract_safe env c hlen file.now pub w).bind fun r hr haccepted => ?_
      exact (hr (of_decide_eq_true haccepted)).2.2

/-- The array has a slot, its size is right, and its keys have entries of the table. -/
structure KeyStore.Fits (s : KeyStore) : Prop where
  pos : 0 < s.keys.length
  size_le : s.keysSize ≤ s.keys.length
  algIdx : ∀ key ∈ s.loaded, key.algIdx < supportedAlgs.length

theorem KeyStore.Fits.read {s : KeyStore} (h : s.Fits) (hlt : s.keysSize < s.keys.length)
    (file : CertFile) (w : World) : Safe (s.read env file w) fun r => r.1.Fits := by
  unfold KeyStore.read
  rw [slotAt_eq hlt, ok_bind]
  apply (readCert_safe env file _ w).bind
  rintro ⟨accepted, pub, w'⟩ haccepted
  have hlength : (s.keys.set s.keysSize pub).length = s.keys.length := List.length_set
  cases accepted with
  | true =>
    refine ⟨hlength ▸ h.pos, by dsimp only; rw [if_pos rfl]; omega, fun key hkey => ?_⟩
    dsimp only at hkey
    rw [if_pos rfl, loaded_set_succ hlt] at hkey
    rcases List.mem_append.mp hkey with hold | hnew
    · exact h.algIdx key hold
    · obtain rfl := List.mem_singleton.mp hnew
      exact haccepted rfl
  | false =>
    refine ⟨hlength ▸ h.pos, by dsimp only; rw [if_neg (by decide)]; omega, fun key hkey => ?_⟩
    dsimp only at hkey
    rw [if_neg (by decide), loaded_set] at hkey
    exact h.algIdx key hkey

theorem KeyStore.Fits.reserve {s : KeyStore} (h : s.Fits) :
    (s.reserve memory).Fits ∧ (s.reserve memory).keysSize < (s.reserve memory).keys.length := by
  have hpos := h.pos
  have hle := h.size_le
  have hlt : (s.reserve memory).keysSize < (s.reserve memory).keys.length := by
    unfold KeyStore.reserve
    split
    · simp only [List.length_append, List.length_map, List.length_range]
      omega
    · omega
  exact ⟨⟨by omega, by omega, s.reserve_loaded memory hle ▸ h.algIdx⟩, hlt⟩

theorem KeyStore.malloc_fits : (KeyStore.malloc memory).Fits :=
  ⟨by simp [KeyStore.malloc], by simp [KeyStore.malloc],
    by simp [KeyStore.malloc, KeyStore.loaded]⟩

theorem loadDirectory_safe (entries : List DirEntry) {s : KeyStore} (h : s.Fits) (w : World) :
    Safe (loadDirectory env memory entries s w) fun r => r.1.Fits := by
  induction entries generalizing s w with
  | nil => exact h
  | cons entry entries ih =>
    have hentry : Safe (loadEntry env memory entry s w) fun r => r.1.Fits :=
      Safe.ite (fun _ => h) fun _ =>
        (h.reserve memory).1.read env (h.reserve memory).2 entry.file w
    exact hentry.bind fun r hr => ih hr r.2

/-- Loading never faults. -/
theorem loadKeys_ok (source : Source) :
    ∃ r, loadKeys env memory source .initial = .ok r ∧ r.1.Fits := by
  have hstart := KeyStore.malloc_fits memory
  cases source with
  | directory entries => exact (loadDirectory_safe env memory entries hstart .initial).exists_ok
  | file file => exact (hstart.read env (by simp [KeyStore.malloc]) file .initial).exists_ok

/-! ## Serving -/

/-- The key array of a running server that has loaded `n` keys: the first `n` slots hold
their objects, in some order. -/
structure KeyStore.Serving (s : KeyStore) (n : ℕ) (w : World) : Prop where
  size_le : s.keysSize ≤ n
  length_le : n ≤ s.keys.length
  ready : ∀ key ∈ s.keys.take n, key.Ready
  accounts : ∃ others, w.Accounts others (handlesOf (s.keys.take n)) []

theorem KeyStore.Sound.serving {s : KeyStore} {w : World} (h : s.Sound w) :
    s.Serving s.keysSize w :=
  ⟨le_refl _, h.size_le, h.ready, h.accounts⟩

/-- One operation of a running server. -/
theorem KeyStore.Serving.perform {s : KeyStore} {n : ℕ} {w : World} (h : s.Serving n w)
    (op : KeyOperation) (hslot : op.slot < n) :
    Safe (s.perform env w op) fun r => r.1.Serving n r.2 := by
  obtain ⟨others, haccounts⟩ := h.accounts
  have hle := h.size_le
  have hn := h.length_le
  cases op with
  | verify slot data sig =>
    have hlt : slot < s.keys.length := lt_of_lt_of_le hslot hn
    have hkey : s.keys[slot] ∈ s.keys.take n := by
      rw [← List.getElem_take (h := by simp; exact ⟨hslot, hlt⟩)]
      exact List.getElem_mem _
    obtain ⟨rest, hperm⟩ := handlesOf_perm hkey
    unfold KeyStore.perform slotAt
    simp only [List.getElem?_eq_getElem hlt, ok_bind]
    refine Safe.bind (pubKeyVerify_accounts env (haccounts.perm hperm) (h.ready _ hkey)) ?_
    rintro ⟨ok, w'⟩ h'
    exact ⟨hle, hn, h.ready, others, h'.perm hperm.symm⟩
  | swapRemove slot =>
    unfold KeyStore.perform
    refine Safe.ite (fun hsize => ?_) fun _ => h
    obtain ⟨s', hremove, hsize', hlen, hperm, -⟩ := s.swapRemove_spec Empty (i := slot) hslot
      (by omega) hle hn
    rw [hremove, ok_bind]
    refine ⟨by rw [hsize']; omega, by rw [hlen]; exact hn,
      fun key hkey => h.ready key (hperm.mem_iff.mp hkey), others, ?_⟩
    exact haccounts.perm (hperm.symm.flatMap_right PubKey.handles)

theorem KeyStore.Serving.performAll {s : KeyStore} {n : ℕ} {w : World} (h : s.Serving n w)
    (ops : List KeyOperation) (hslots : ∀ op ∈ ops, op.slot < n) :
    Safe (KeyStore.performAll env ops s w) fun r => r.1.Serving n r.2 := by
  induction ops generalizing s w with
  | nil => exact h
  | cons op ops ih =>
    unfold KeyStore.performAll
    refine Safe.bind (h.perform env op (hslots op (by simp))) ?_
    rintro ⟨s', w'⟩ h'
    exact ih h' fun op hop => hslots op (List.mem_cons_of_mem _ hop)

/-- Freeing slots that hold their objects. -/
theorem freeKeys_accounts {keys : List PubKey} {w : World} {others : ℕ → Prop}
    {rest : List ℕ} {misuses : List Misuse}
    (h : w.Accounts others (handlesOf keys ++ rest) misuses) (hready : ∀ key ∈ keys, key.Ready) :
    Safe (freeKeys keys w) fun w' => w'.Accounts others rest misuses := by
  induction keys generalizing w with
  | nil => exact h
  | cons key keys ih =>
    unfold freeKeys
    have h' : w.Accounts others (key.handles ++ (handlesOf keys ++ rest)) misuses := by
      rw [← List.append_assoc]
      exact h
    refine Safe.bind (pubKeyFree_accounts h' (hready key (by simp))) fun w' h'' => ?_
    exact ih h'' fun key hkey => hready key (List.mem_cons_of_mem _ hkey)

/-- `free_all` frees the objects of the keys in use, each once, and no others. -/
theorem KeyStore.Serving.freeAll {s : KeyStore} {n : ℕ} {w : World} (h : s.Serving n w) :
    Safe (s.freeAll w) fun w' => w'.misuses = [] ∧
      ∀ a, w'.live a = true ↔ w.live a = true ∧ a ∉ handlesOf s.loaded := by
  obtain ⟨others, haccounts⟩ := h.accounts
  have hloaded : s.keys.take n = s.loaded ++ (s.keys.take n).drop s.keysSize := by
    have hsplit := (List.take_append_drop s.keysSize (s.keys.take n)).symm
    rwa [List.take_take, Nat.min_eq_left h.size_le] at hsplit
  have hready : ∀ key ∈ s.loaded, key.Ready := fun key hkey => h.ready key (by
    rw [hloaded]
    exact List.mem_append_left _ hkey)
  rw [hloaded, handlesOf_append] at haccounts
  refine (freeKeys_accounts haccounts hready).mono fun w' h' => ⟨h'.misuses_eq, fun a => ?_⟩
  rw [h'.ledger.live_iff, haccounts.ledger.live_iff, List.mem_append]
  have hapart := haccounts.ledger.disjoint a
  have honce := (List.nodup_append'.mp haccounts.ledger.nodup).2.2
  constructor
  · rintro (hothers | hrest)
    · exact ⟨Or.inl hothers, fun hmem => hapart (List.mem_append_left _ hmem) hothers⟩
    · exact ⟨Or.inr (Or.inr hrest), fun hmem => honce hmem hrest⟩
  · rintro ⟨hothers | hmem | hrest, hnot⟩
    · exact Or.inl hothers
    · exact absurd hmem hnot
    · exact Or.inr hrest

/-! ## Whole runs -/

/-- Where every load is allowed, no handle is misused: not while the certificates are
loaded, not by any sequence of verifications and removals, and not by `free_all`. -/
theorem handles_never_misused (source : Source) (s : KeyStore) (w : World)
    (hstart : AllowedStart env memory s w source) (ops : List KeyOperation)
    (hslots : ∀ op ∈ ops, op.slot < s.keysSize) :
    loadKeys env memory source .initial = .ok (s, w) ∧ w.misuses = [] ∧
      ∃ s' w' w'', KeyStore.performAll env ops s w = .ok (s', w') ∧ w'.misuses = [] ∧
        s'.freeAll w' = .ok w'' ∧ w''.misuses = [] := by
  obtain ⟨hload, hsound⟩ := hstart.sound
  obtain ⟨⟨s', w'⟩, hops, hserving⟩ := (hsound.serving.performAll env ops hslots).exists_ok
  obtain ⟨w'', hfree, hclean, -⟩ := hserving.freeAll.exists_ok
  obtain ⟨others, haccounts⟩ := hsound.accounts
  obtain ⟨others', haccounts'⟩ := hserving.accounts
  exact ⟨hload, haccounts.misuses_eq, s', w', w'', hops, haccounts'.misuses_eq, hfree, hclean⟩

end Store

/-- A file with a certificate, read at the first second of 1970. -/
def certFile (c : Certificate) (h : c.encode.length < 2 ^ 63) : CertFile where
  contents := some c.encode
  now := 0
  size_lt raw hraw := by
    obtain rfl := Option.mem_some_iff.mp hraw
    exact h

/-- A certificate whose key is not an RSA key may be read into any slot. -/
theorem readAllowed_of_ne (env : OpenSsl) (c : Certificate) (h : c.encode.length < 2 ^ 63)
    (hoid : rsaOid ≠ c.keyInfo.algorithm.algorithm) (slot : PubKey) (w : World) :
    ReadAllowed env (certFile c h) slot w := by
  intro raw fields hraw hparse hreaches
  obtain rfl := Option.some.inj hraw
  rw [parseX509_encode c _ h] at hparse
  obtain rfl := Except.ok.inj hparse
  exact absurd ((reachesFromdata_iff env c 0).mp hreaches).2.1 hoid

/-- A single file that may be read into any slot starts the server. -/
theorem exists_allowedStart (env : OpenSsl) (memory : ℕ → PubKey) (file : CertFile)
    (h : ∀ slot, ReadAllowed env file slot .initial) :
    ∃ s w, AllowedStart env memory s w (.file file) := by
  obtain ⟨⟨s, w⟩, hread, -⟩ := ((KeyStore.malloc_sound memory).read env
    (show 0 < 4 by decide) file fun slot _ => h slot).exists_ok
  exact ⟨s, w, fun slot _ => h slot, hread⟩

def ed25519File : CertFile :=
  certFile (ed25519Certificate epoch signingUsage 0) (by decide +kernel)

/-- One Ed25519 certificate, whose key is used and freed. -/
theorem handles_never_misused_ed25519 :
    ∃ s w, loadKeys .accepting (fun _ => .unwritten) (.file ed25519File) .initial = .ok (s, w) ∧
      w.misuses = [] ∧ ∃ s' w' w'', KeyStore.performAll .accepting
          [.verify 0 [1] (List.replicate 64 0), .swapRemove 0] s w = .ok (s', w') ∧
        w'.misuses = [] ∧ s'.freeAll w' = .ok w'' ∧ w''.misuses = [] := by
  have hallowed : ∀ slot, ReadAllowed .accepting ed25519File slot .initial := fun slot =>
    readAllowed_of_ne .accepting _ _ (by decide +kernel) slot .initial
  obtain ⟨s, w, hstart⟩ := exists_allowedStart .accepting (fun _ => .unwritten) ed25519File
    hallowed
  have hsize : ((KeyStore.malloc fun _ => .unwritten).read .accepting ed25519File
      .initial).map (fun r => r.1.keysSize) = .ok 1 := by decide +kernel
  rw [hstart.2] at hsize
  have hloaded : s.keysSize = 1 := Except.ok.inj hsize
  refine ⟨s, w, handles_never_misused .accepting (fun _ => .unwritten) _ s w hstart _ ?_⟩
  rw [hloaded]
  simp [KeyOperation.slot]

/-- An RSA certificate as the first file: its slot is fresh memory, and `EVP_PKEY_fromdata`
is given the `pkey` member found there. -/
theorem rsa_in_fresh_slot_misused :
    ((loadKeys .accepting (fun _ => .unwritten)
      (.file (certFile (rsaCertificate signingUsage 0) (by decide +kernel))) .initial).map
        fun r => (r.1.keysSize, r.2.misuses)) = .ok (1, [.uninitialised]) := by
  decide +kernel

end X509Server
