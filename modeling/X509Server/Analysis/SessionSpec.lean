import X509Server.Analysis.DecisionSpec
import X509Server.Analysis.StoreSpec
import X509Server.Analysis.TrackSpec

/-!
# Authenticated execution

Three invariants of a run meet in `executed_authentic`: every key in use was accepted while
the server was started, every buffer holds exactly what the log says its connection has
received, and every execution in the log is authentic.
-/

set_option autoImplicit false

namespace X509Server

open Checked Runs

/-! ## Keys -/

section Keys

variable (env : OpenSsl) (memory : ℕ → PubKey)

theorem loadDirectory_append (entries entries' : List DirEntry) (s : KeyStore) (w : World) :
    loadDirectory env memory (entries ++ entries') s w =
      loadDirectory env memory entries s w >>= fun r =>
        loadDirectory env memory entries' r.1 r.2 := by
  induction entries generalizing s w with
  | nil => rfl
  | cons entry entries ih =>
    rw [List.cons_append, loadDirectory, loadDirectory, bind_assoc]
    refine bind_congr fun r => ?_
    exact ih r.1 r.2

/-- What reading a file does to the keys in use. -/
theorem KeyStore.read_loaded {file : CertFile} {s s' : KeyStore} {w w' : World}
    (hs : s.keysSize ≤ s.keys.length) (h : s.read env file w = .ok (s', w')) :
    s'.keysSize ≤ s'.keys.length ∧ ∀ key ∈ s'.loaded, key ∈ s.loaded ∨
      ∃ slot, s.keys[s.keysSize]? = some slot ∧
        readCert env file slot w = .ok (true, key, w') := by
  unfold KeyStore.read slotAt at h
  cases hslot : s.keys[s.keysSize]? with
  | none =>
    rw [hslot] at h
    cases h
  | some slot =>
    rw [hslot] at h
    dsimp only at h
    rw [ok_bind] at h
    have hlt := (List.getElem?_eq_some_iff.mp hslot).1
    cases hread : readCert env file slot w with
    | error stop =>
      rw [hread] at h
      cases h
    | ok r =>
      obtain ⟨accepted, pub, w₁⟩ := r
      rw [hread] at h
      obtain ⟨rfl, rfl⟩ := Prod.mk.inj (Except.ok.inj h)
      cases accepted with
      | true =>
        refine ⟨by simpa using hlt, fun key hkey => ?_⟩
        rw [if_pos rfl, loaded_set_succ hlt] at hkey
        rcases List.mem_append.mp hkey with hkey | hkey
        · exact Or.inl hkey
        · obtain rfl := List.mem_singleton.mp hkey
          exact Or.inr ⟨slot, rfl, hread⟩
      | false =>
        refine ⟨by simpa using hs, fun key hkey => ?_⟩
        rw [if_neg Bool.false_ne_true, loaded_set] at hkey
        exact Or.inl hkey

/-- More entries do not make a key less accepted. -/
theorem AcceptedAtStart.append {key : PubKey} {entries : List DirEntry}
    (h : AcceptedAtStart env memory key (.directory entries)) (more : List DirEntry) :
    AcceptedAtStart env memory key (.directory (entries ++ more)) := by
  obtain ⟨before, entry, after, s, w, slot, w', rfl, hrest⟩ := h
  exact ⟨before, entry, after ++ more, s, w, slot, w', by simp, hrest⟩

/-- Every key in use behind the directory loop was accepted in its turn. -/
theorem loadDirectory_accepted (entries : List DirEntry) {s : KeyStore} {w : World}
    (h : loadDirectory env memory entries (.malloc memory) .initial = .ok (s, w)) :
    s.keysSize ≤ s.keys.length ∧
      ∀ key ∈ s.loaded, AcceptedAtStart env memory key (.directory entries) := by
  induction entries using List.reverseRecOn generalizing s w with
  | nil =>
    obtain ⟨rfl, rfl⟩ := Prod.mk.inj (Except.ok.inj h)
    exact ⟨Nat.zero_le _, by simp [KeyStore.loaded, KeyStore.malloc]⟩
  | append_singleton entries entry ih =>
    rw [loadDirectory_append] at h
    cases hbefore : loadDirectory env memory entries (.malloc memory) .initial with
    | error stop =>
      rw [hbefore] at h
      cases h
    | ok r =>
      obtain ⟨s₁, w₁⟩ := r
      obtain ⟨hs₁, hkeys⟩ := ih hbefore
      rw [hbefore, ok_bind, loadDirectory] at h
      have hentry : loadEntry env memory entry s₁ w₁ = .ok (s, w) := by
        cases hturn : loadEntry env memory entry s₁ w₁ with
        | error stop =>
          rw [hturn] at h
          cases h
        | ok r =>
          rw [hturn] at h
          exact h
      unfold loadEntry at hentry
      split at hentry
      · obtain ⟨rfl, rfl⟩ := Prod.mk.inj (Except.ok.inj hentry)
        exact ⟨hs₁, fun key hkey => (hkeys key hkey).append env memory [entry]⟩
      · rename_i hname
        obtain ⟨hs, hread⟩ := KeyStore.read_loaded env (s₁.reserve_size_le memory hs₁) hentry
        refine ⟨hs, fun key hkey => ?_⟩
        rcases hread key hkey with hold | ⟨slot, hslot, hcert⟩
        · rw [s₁.reserve_loaded memory hs₁] at hold
          exact (hkeys key hold).append env memory [entry]
        · rw [s₁.reserve_keysSize] at hslot
          exact ⟨entries, entry, [], s₁, w₁, slot, w, rfl, hbefore,
            fun h => hname (Or.inl h), fun h => hname (Or.inr h), hslot, hcert⟩

/-- The keys of a started server. -/
theorem loadKeys_accepted {source : Source} {s : KeyStore} {w : World}
    (h : loadKeys env memory source .initial = .ok (s, w)) :
    s.keysSize ≤ s.keys.length ∧ ∀ key ∈ s.loaded, AcceptedAtStart env memory key source := by
  cases source with
  | directory entries => exact loadDirectory_accepted env memory entries h
  | file file =>
    obtain ⟨hs, hread⟩ := KeyStore.read_loaded env (Nat.zero_le _) h
    refine ⟨hs, fun key hkey => (hread key hkey).elim (fun hold => ?_) ?_⟩
    · simp [KeyStore.loaded, KeyStore.malloc] at hold
    · rintro ⟨slot, hslot, hcert⟩
      exact ⟨slot, w, hslot, hcert⟩

end Keys

/-! ## Executions -/

section Executions

variable {verify : PubKey → Bytes → Bytes → Bool} {accepted : PubKey → Prop}

theorem Observation.Silent.authenticated {o : Observation} (h : o.Silent)
    (before : List Observation) : Authenticated verify accepted before o := by
  cases o with
  | executed slot script n => exact h.elim
  | opened slot => trivial
  | received slot chunk => trivial
  | terminated slot now => trivial
  | closed slot => trivial

/-- The entries of a decision. -/
theorem logged_decisionLog {log : List Observation} {slot n : ℕ} {now : ℤ}
    {script : Option Bytes} {buf : Bytes} {keys : List PubKey}
    (hreceived : received slot log = some buf) (hkeys : ∀ key ∈ keys, accepted key)
    (hscript : ∀ s, script = some s → ∃ key ∈ keys, now ≤ key.expiry ∧
      key.authenticate verify buf = some s) :
    Logged (fun before o => Authenticated verify accepted (log ++ before) o)
      (decisionLog slot now n script) := by
  cases script with
  | none =>
    refine logged_of_forall fun before o ho => ?_
    simp only [decisionLog, List.mem_cons, List.not_mem_nil, or_false] at ho
    rcases ho with rfl | rfl <;> trivial
  | some script =>
    obtain ⟨key, hmem, hvalid, hauth⟩ := hscript script rfl
    obtain ⟨sig, rfl, hsig, hverify⟩ := (key.authenticate_eq_some_iff verify _ _).mp hauth
    rintro (_ | ⟨first, _ | ⟨second, rest⟩⟩) o after hsplit <;>
      simp only [decisionLog, List.nil_append, List.cons_append, List.cons.injEq] at hsplit
    · obtain ⟨rfl, -⟩ := hsplit
      trivial
    · obtain ⟨rfl, rfl, -⟩ := hsplit
      refine ⟨log, now, sig, key, rfl, ?_, hkeys key hmem, hsig, hverify, hvalid⟩
      rw [received_append, hreceived]
      simp [observe, Observation.slot]
    · obtain ⟨rfl, rfl, hsplit⟩ := hsplit
      cases rest with
      | nil =>
        obtain ⟨rfl, -⟩ := List.cons.inj hsplit
        trivial
      | cons third rest => simp at hsplit

/-- The state of a run: the keys in use are accepted, the log tracks the connections, and
its executions are authentic. -/
structure Sessions (verify : PubKey → Bytes → Bytes → Bool) (accepted : PubKey → Prop)
    (s : Server) : Prop where
  size_le : s.resources.keysSize ≤ s.resources.keys.length
  keys : ∀ key ∈ s.resources.loaded, accepted key
  tracked : Along Tracks s.log s.resources.conns
  logged : Logged (Authenticated verify accepted) s.log

theorem Sessions.start {store : KeyStore} (hsize : store.keysSize ≤ store.keys.length)
    (hkeys : ∀ key ∈ store.loaded, accepted key) :
    Sessions verify accepted (Server.start store) where
  size_le := hsize
  keys := hkeys
  tracked := along_start store ⟨fun hopen => absurd hopen (by simp), fun _ => rfl⟩
  logged := logged_nil

theorem Sessions.step {s t : Server} {l : Label} (h : Sessions verify accepted s)
    (hstep : s.step verify l = some t) : Sessions verify accepted t := by
  rcases Server.step_cases verify hstep with ⟨-, rfl⟩ | ⟨events, -, -, -, rfl⟩ |
    ⟨a, e, events, rfl, -, -, rfl⟩
  · exact ⟨h.size_le, h.keys, h.tracked, h.logged⟩
  · exact ⟨h.size_le, h.keys, h.tracked, h.logged⟩
  · have hyields := handleEvent_yields verify a e s.resources
    cases hevent : handleEvent verify e a s.resources with
    | error stop => cases stop <;> exact ⟨h.size_le, h.keys, h.tracked, h.logged⟩
    | ok p =>
      obtain ⟨r, obs⟩ := p
      obtain ⟨hhandled, -, houtcome⟩ := hyields.of_ok hevent
      have htracked := h.tracked.handled Tracks.touch hhandled
      cases houtcome with
      | transported ht =>
        refine ⟨?_, ?_, htracked, h.logged.append ?_⟩
        · change r.toKeyStore.keysSize ≤ r.toKeyStore.keys.length
          rw [ht.keys]
          exact h.size_le
        · change ∀ key ∈ r.toKeyStore.loaded, accepted key
          rw [ht.keys]
          exact h.keys
        · exact logged_of_forall fun before o ho => (ht.silent o ho).authenticated _
      | decided decision auth obs_eq silent =>
        obtain ⟨hsize, hsub, hscript⟩ :=
          Safe.of_ok (authenticate_safe verify h.size_le) auth
        refine ⟨hsize, fun key hkey => h.keys key (hsub key hkey), htracked, h.logged.append ?_⟩
        have hmid := h.tracked.handled Tracks.touch decision.transported.handled
        have hreceived := (hmid e.data _ decision.conn_eq).contents decision.inUse
        dsimp only at obs_eq
        rw [obs_eq]
        have hdecision := logged_decisionLog (n := s.resources.scriptN + 1)
          hreceived h.keys hscript
        refine (Logged.append ?_ ?_).append ?_
        · exact logged_of_forall fun before o ho =>
            (decision.transported.silent o ho).authenticated _
        · simpa only [List.append_assoc] using hdecision
        · exact logged_of_forall fun before o ho => (silent o ho).authenticated _

end Executions

/-- Whatever certificates were loaded and whatever the kernel answers, a script is executed
only for a connection that has sent exactly a signature, a newline and the script, where one
of the keys accepted at the start accepts the signature and has not expired. -/
theorem executed_authentic (env : OpenSsl) (memory : ℕ → PubKey) (source : Source)
    (store : KeyStore) (w : World) (hload : loadKeys env memory source .initial = .ok (store, w))
    (verify : PubKey → Bytes → Bytes → Bool) (labels : List Label) (s : Server)
    (hrun : Run (fun s l t => s.step verify l = some t) (Server.start store) labels s) :
    Logged (Authenticated verify fun key => AcceptedAtStart env memory key source) s.log := by
  obtain ⟨hsize, hkeys⟩ := loadKeys_accepted env memory hload
  have hsessions := hrun.invariant
    (I := Sessions verify fun key => AcceptedAtStart env memory key source)
    (fun s l t h hstep => h.step hstep) (.start hsize hkeys)
  exact hsessions.logged

/-- A connection arrives, sends a message in one piece and terminates. -/
def messageSession (message : Bytes) : List Label :=
  let answers : Answers := ⟨5, true, 0, fun _ => 0, [.data message, .data []], 0⟩
  [.wait [⟨maxInt32, true, false, false, false⟩], .handle answers,
    .wait [⟨0, true, true, false, false⟩], .handle answers]

/-- One Ed25519 certificate, and one script that is executed. -/
theorem executed_authentic_ed25519 :
    ∃ (store : KeyStore) (w : World) (s : Server),
      loadKeys .accepting (fun _ => .unwritten) (.file ed25519File) .initial =
        .ok (store, w) ∧
      s.log = [.opened 0, .received 0 (List.replicate 64 7 ++ [10, 42]), .terminated 0 0,
        .executed 0 [42] 1, .closed 0] ∧
      Logged (Authenticated (fun _ _ _ => true) fun key =>
        AcceptedAtStart .accepting (fun _ => .unwritten) key (.file ed25519File)) s.log := by
  have hlog : (loadKeys .accepting (fun _ => .unwritten) (.file ed25519File) .initial).map
      (fun r => ((messageSession (List.replicate 64 7 ++ [10, 42])).foldlM
        (Server.step fun _ _ _ => true) (Server.start r.1)).map fun s => s.log) =
      .ok (some [.opened 0, .received 0 (List.replicate 64 7 ++ [10, 42]), .terminated 0 0,
        .executed 0 [42] 1, .closed 0]) := by
    decide +kernel
  cases hload : loadKeys .accepting (fun _ => .unwritten) (.file ed25519File) .initial with
  | error stop =>
    rw [hload] at hlog
    cases hlog
  | ok r =>
    obtain ⟨store, w⟩ := r
    rw [hload] at hlog
    obtain ⟨s, hrun, hs⟩ := Option.map_eq_some_iff.mp (Except.ok.inj hlog)
    exact ⟨store, w, s, rfl, hs, executed_authentic .accepting _ _ store w hload _ _ s
      ((run_iff_foldlM (Server.step fun _ _ _ => true) _ s _).mpr hrun)⟩

end X509Server
