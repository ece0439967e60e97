import X509Server.Analysis.AuthSpec
import X509Server.Analysis.ServerSpec

/-!
# Expired keys over a run

A decision takes the keys through `authenticate`, and nothing else touches them.  So where
every decision settles, the keys that are valid whenever the time is read stay, and the
server ends because of expired keys only if all of them have expired.
-/

set_option autoImplicit false

namespace X509Server

open Checked Runs

variable {verify : PubKey → Bytes → Bytes → Bool}

/-! ## The times in the log -/

theorem timesRead_append (log obs : List Observation) :
    timesRead (log ++ obs) = timesRead log ++ timesRead obs :=
  List.filterMap_append

theorem timesRead_silent {obs : List Observation} (h : ∀ o ∈ obs, o.Silent) :
    timesRead obs = [] := by
  refine List.filterMap_eq_nil_iff.mpr fun o ho => ?_
  have hsilent := h o ho
  cases o with
  | terminated slot now => exact hsilent.elim
  | opened slot => rfl
  | received slot chunk => rfl
  | executed slot script n => rfl
  | closed slot => rfl

theorem timesRead_decisionLog (slot n : ℕ) (now : ℤ) (script : Option Bytes) :
    timesRead (decisionLog slot now n script) = [now] := by
  cases script <;> rfl

/-! ## Steps -/

/-- A decision is about the message that makes it. -/
theorem Decision.decidedMessage_eq {a : Answers} {e : Event} {r mid : Resources}
    {obs : List Observation} {conn : Connection} (h : Decision a e.data e r mid obs conn) :
    decidedMessage e a r = some conn.contents := by
  unfold decidedMessage
  rw [h.received]
  dsimp only
  rw [h.conn_eq]
  exact if_pos ⟨h.inUse, h.ended⟩

/-- The keys in use lie inside the array, and `RunKept` holds. -/
structure Kept (start : KeyStore) (s : Server) : Prop where
  size_le : s.resources.keysSize ≤ s.resources.keys.length
  runKept : RunKept start s

theorem Kept.start {store : KeyStore} (h : store.keysSize ≤ store.keys.length) :
    Kept store (Server.start store) where
  size_le := h
  runKept :=
    { kept := fun _ _ => rfl
      ended := by
        intro now hphase
        unfold Server.start at hphase
        dsimp only at hphase
        split at hphase
        · cases hphase
        · cases hphase }

/-- An event that leaves the keys as they are. -/
theorem Kept.transported {start : KeyStore} {s : Server} {a : Answers} {about : ℕ → Prop}
    {events : List Event} {r : Resources} {obs : List Observation} (h : Kept start s)
    (hrunning : s.phase = .running) (ht : Transported a about s.resources r obs) :
    Kept start (s.advance events (.ok (r, obs))) where
  size_le := by
    have hsize := h.size_le
    have hkeys := ht.keys
    change r.toKeyStore.keysSize ≤ r.toKeyStore.keys.length
    rw [hkeys]
    exact hsize
  runKept :=
    { kept := by
        intro key hvalid
        change r.toKeyStore.loaded.count key = _
        rw [ht.keys]
        refine h.runKept.kept key fun now hnow => hvalid now ?_
        change now ∈ timesRead (s.log ++ obs)
        rw [timesRead_append]
        exact List.mem_append_left _ hnow
      ended := by
        intro now hphase
        change s.phase = _ at hphase
        rw [hrunning] at hphase
        cases hphase }

/-- A decision that settles. -/
theorem Kept.decided {start : KeyStore} {s : Server} {a : Answers} {e : Event}
    {events : List Event} {r mid : Resources} {conn : Connection} {script : Option Bytes}
    {obs obs₁ obs₃ : List Observation} (h : Kept start s) (hrunning : s.phase = .running)
    (hdecision : Decision a e.data e s.resources mid obs₁ conn)
    (hsettles : Settles verify a.time conn.contents s.resources.loaded)
    (hauth : authenticate verify a.time conn.contents s.resources.toKeyStore =
      .ok (r.toKeyStore, script))
    (hobs : obs = obs₁ ++ decisionLog e.data a.time (s.resources.scriptN + 1) script ++ obs₃) :
    Kept start (s.advance events (.ok (r, obs))) where
  size_le := by
    have hsafe := Safe.of_ok (authenticate_safe verify h.size_le) hauth
    exact hsafe.1
  runKept :=
    { kept := by
        intro key hvalid
        have htimes : timesRead (s.log ++ obs) =
            timesRead s.log ++ ([a.time] ++ timesRead obs₃) := by
          rw [hobs, timesRead_append, timesRead_append, timesRead_append,
            timesRead_silent hdecision.transported.silent, timesRead_decisionLog, List.nil_append]
        have hnow : a.time ≤ key.expiry := by
          refine hvalid a.time ?_
          change a.time ∈ timesRead (s.log ++ obs)
          rw [htimes]
          simp
        have hbefore : ∀ now ∈ timesRead s.log, now ≤ key.expiry := by
          intro now hmem
          refine hvalid now ?_
          change now ∈ timesRead (s.log ++ obs)
          rw [htimes]
          exact List.mem_append_left _ hmem
        have hkept := (authenticate_keysKept_iff verify h.size_le).mpr hsettles
        rw [hauth] at hkept
        exact (hkept key hnow).trans (h.runKept.kept key hbefore)
      ended := by
        intro now hphase
        change s.phase = _ at hphase
        rw [hrunning] at hphase
        cases hphase }

/-- A decision that settles and ends the server. -/
theorem Kept.expired {start : KeyStore} {s : Server} {a : Answers} {conn : Connection}
    {events : List Event} {reason : Exit} (h : Kept start s)
    (hsettles : Settles verify a.time conn.contents s.resources.loaded)
    (hauth : authenticate verify a.time conn.contents s.resources.toKeyStore =
      .error (.code reason)) :
    Kept start (s.advance events (.error (.code reason))) where
  size_le := h.size_le
  runKept :=
    { kept := h.runKept.kept
      ended := by
        intro now hphase
        obtain rfl := Phase.exited.inj hphase
        have hreason := (authLoop_yields verify).of_code hauth
        obtain rfl := Exit.allCertificatesExpired.inj hreason
        have hkept := (authenticate_keysKept_iff verify h.size_le).mpr hsettles
        rw [hauth] at hkept
        intro key hkey
        by_cases hbefore : ∀ t ∈ timesRead s.log, t ≤ key.expiry
        · have hcount := h.runKept.kept key hbefore
          have hmem : key ∈ s.resources.loaded := by
            refine List.count_pos_iff.mp ?_
            rw [hcount]
            exact List.count_pos_iff.mpr hkey
          exact ⟨a.time, by simp, hkept key hmem⟩
        · simp only [not_forall, not_le] at hbefore
          obtain ⟨t, ht, hlt⟩ := hbefore
          exact ⟨t, List.mem_cons_of_mem _ ht, hlt⟩ }

/-- Everything else leaves the keys and the log, and the server does not end because of
expired keys. -/
theorem Kept.of_eq {start : KeyStore} {s t : Server} (h : Kept start s)
    (hresources : t.resources = s.resources) (hlog : t.log = s.log)
    (hphase : ∀ now, t.phase = .exited (.allCertificatesExpired now) → t.phase = s.phase) :
    Kept start t where
  size_le := by
    rw [hresources]
    exact h.size_le
  runKept :=
    { kept := by
        rw [hresources, hlog]
        exact h.runKept.kept
      ended := by
        intro now hexit
        rw [hlog]
        exact h.runKept.ended now ((hphase now hexit).symm.trans hexit) }

/-- A step that decides only on messages that settle. -/
theorem Kept.step {start : KeyStore} {s t : Server} {l : Label} (h : Kept start s)
    (hstep : SettlingStep verify s l t) : Kept start t := by
  obtain ⟨hstep, hsettling⟩ := hstep
  rcases Server.step_cases verify hstep with ⟨-, rfl⟩ | ⟨events, -, -, -, rfl⟩ |
    ⟨a, e, events, rfl, hrunning, hpending, rfl⟩
  · exact h.of_eq rfl rfl fun now hexit => by cases hexit
  · exact h.of_eq rfl rfl fun _ _ => rfl
  · have hsettles : ∀ mid obs conn, Decision a e.data e s.resources mid obs conn →
        Settles verify a.time conn.contents s.resources.loaded := fun mid obs conn hdecision =>
      hsettling a e events conn.contents rfl hpending hdecision.decidedMessage_eq
    have hyields := handleEvent_yields verify a e s.resources
    cases hevent : handleEvent verify e a s.resources with
    | ok p =>
      obtain ⟨r, obs⟩ := p
      obtain ⟨-, -, houtcome⟩ := hyields.of_ok hevent
      cases houtcome with
      | transported ht => exact h.transported hrunning ht
      | decided hdecision hauth hobs _ =>
        exact h.decided hrunning hdecision (hsettles _ _ _ hdecision) hauth hobs
    | error stop =>
      cases stop with
      | code reason =>
        rcases hyields.of_code hevent with rfl | ⟨mid, obs, conn, hdecision, hauth⟩
        · exact h.of_eq rfl rfl fun now hexit => by cases hexit
        · exact h.expired (hsettles _ _ _ hdecision) hauth
      | fault fault => exact h.of_eq rfl rfl fun now hexit => by cases hexit

/-- The loop keeps the unexpired keys, and ends the server only without one, exactly where
it settles; and where every decision of a run settles, no key is lost while it is valid, and
the server does not stop while there is one. -/
theorem keys_kept (verify : PubKey → Bytes → Bytes → Bool) :
    (∀ (now : ℤ) (buf : Bytes) (s : KeyStore), s.keysSize ≤ s.keys.length →
      (KeysKept now s (authenticate verify now buf s) ↔ Settles verify now buf s.loaded)) ∧
    ∀ (store : KeyStore) (labels : List Label) (s : Server),
      store.keysSize ≤ store.keys.length →
      Run (SettlingStep verify) (Server.start store) labels s → RunKept store s := by
  refine ⟨fun now buf s hs => authenticate_keysKept_iff verify hs,
    fun store labels s hs hrun => ?_⟩
  have hkept : Kept store s :=
    hrun.invariant (fun s l t h hstep => h.step hstep) (Kept.start hs)
  exact hkept.runKept

/-! ## Examples -/

/-- What the kernel answers when nothing is to be received. -/
def quietAnswers (time : ℤ) : Answers where
  accept := 5
  epollCtl := true
  clock := 0
  memory := fun _ => 0
  recvs := []
  time := time

/-- A connection arrives and terminates without having sent anything. -/
def emptySession (time : ℤ) : List Label :=
  [.wait [⟨maxInt32, true, false, false, false⟩], .handle (quietAnswers time),
    .wait [⟨0, false, true, false, false⟩], .handle (quietAnswers time)]

/-- Two valid keys, and one connection that is not authentic. -/
theorem keys_kept_two :
    (KeysKept 0 (keysUntil [1, 2]) (authenticate (fun _ _ _ => true) 0 [] (keysUntil [1, 2])) ↔
      Settles (fun _ _ _ => true) 0 [] (keysUntil [1, 2]).loaded) ∧
    ∃ s, s.log = [.opened 0, .terminated 0 0, .closed 0] ∧ RunKept (keysUntil [1, 2]) s := by
  refine ⟨(keys_kept _).1 0 [] _ (by decide), ?_⟩
  have hvalid : ∀ key ∈ (keysUntil [1, 2]).loaded, (0 : ℤ) ≤ key.expiry := by decide
  have hrun : ∃ s, Run (SettlingStep fun _ _ _ => true) (Server.start (keysUntil [1, 2]))
      (emptySession 0) s ∧ s.log = [.opened 0, .terminated 0 0, .closed 0] := by
    refine ⟨_, .cons ⟨rfl, ?_⟩ (.cons ⟨rfl, ?_⟩ (.cons ⟨rfl, ?_⟩ (.cons ⟨rfl, ?_⟩ (.nil _)))), rfl⟩
    · rintro a e events buf ⟨⟩
    · rintro a e events buf ⟨⟩ - -
      exact Or.inl hvalid
    · rintro a e events buf ⟨⟩
    · rintro a e events buf ⟨⟩ - -
      exact Or.inl hvalid
  obtain ⟨s, hrun, hlog⟩ := hrun
  exact ⟨s, hlog, (keys_kept _).2 _ _ s (by decide) hrun⟩

/-- An expired key in front of valid ones, and a connection that is not authentic: one of
two valid keys is lost, and with one valid key the server ends. -/
theorem valid_key_lost :
    ¬ KeysKept 1 (keysUntil [0, 2, 3])
      (authenticate (fun _ _ _ => true) 1 [] (keysUntil [0, 2, 3])) ∧
    ((emptySession 1).foldlM (Server.step fun _ _ _ => true)
      (Server.start (keysUntil [0, 2]))).map (fun s => s.phase) =
        some (.exited (.allCertificatesExpired 1)) := by
  refine ⟨fun hkept => ?_, by decide +kernel⟩
  have hcount := hkept { PubKey.unwritten with expiry := 2 } (by decide)
  revert hcount
  decide +kernel

end X509Server
