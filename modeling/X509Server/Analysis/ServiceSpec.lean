import X509Server.Analysis.NetworkSpec
import X509Server.Library.Simulation

/-!
# The network refines the service

`Serves` relates the network to the service it provides: the streams are the channels, the
judgements are the decisions of the server, a client that has been judged is in no slot any
more, and as long as no key had expired at a judgement the server has every key.  Every step
of the network is matched (`serves_simulates`): a move of a channel and an event of a
connection by a client that goes on, the end of a connection by that and a judgement, and
anything else by nothing.
-/

set_option autoImplicit false

namespace X509Server

open Channels Checked Runs

variable {verify : PubKey → Bytes → Bytes → Bool}

/-! ## What the log shows -/

theorem executions_append (log obs : List Observation) :
    executions (log ++ obs) = executions log ++ executions obs :=
  List.filterMap_append

theorem executions_silent {obs : List Observation} (h : ∀ o ∈ obs, o.Silent) :
    executions obs = [] := by
  refine List.filterMap_eq_nil_iff.mpr fun o ho => ?_
  have hsilent := h o ho
  cases o with
  | executed slot script n => exact hsilent.elim
  | opened slot => rfl
  | received slot chunk => rfl
  | terminated slot now => rfl
  | closed slot => rfl

theorem executions_decisionLog (slot n : ℕ) (now : ℤ) (script : Option Bytes) :
    executions (decisionLog slot now n script) = script.toList.zipIdx n := by
  cases script <;> rfl

/-- A judgement adds its script, with the next number. -/
theorem Service.executions_judged (v : Service) (j : Judgement) :
    Service.executions { v with judgements := v.judgements ++ [j] } = v.executions ++
      j.script.toList.zipIdx ((v.judgements.filterMap Judgement.script).length + 1) := by
  have hscript : [j].filterMap Judgement.script = j.script.toList := by
    cases hj : j.script <;> simp [hj]
  unfold Service.executions
  dsimp only
  rw [List.filterMap_append, hscript, List.zipIdx_append, Nat.add_comm 1]

/-! ## The relation -/

/-- The service that the network provides. -/
structure Serves (verify : PubKey → Bytes → Bytes → Bool) (store : KeyStore) (n : Network)
    (v : Service) : Prop where
  shows : n.Shows v
  sound : n.system.Sound
  reached : Reached verify n.system.server
  numbered : n.system.server.resources.scriptN = (v.judgements.filterMap Judgement.script).length
  loaded : ∀ key ∈ n.system.server.resources.loaded, key ∈ store.loaded
  kept : (∀ j ∈ v.judgements, ∀ key ∈ store.loaded, j.now ≤ key.expiry) →
    ∀ key ∈ store.loaded, key ∈ n.system.server.resources.loaded
  gone : ∀ j ∈ v.judgements, Gone n.system.kernel j.client
  held : n.system.server.phase = .running →
    Held n.system.kernel n.system.server.log n.channels
  tells : n.system.server.phase = .running → ∀ report ∈ n.system.reports, ∀ id,
    report.origin = .connection id → report.event.Tells (n.channels id)

theorem serves_start {store : KeyStore} (hs : store.keysSize ≤ store.keys.length) :
    Serves verify store (.start store) .start where
  shows := ⟨fun _ => rfl, rfl, rfl⟩
  sound := System.sound_start store
  reached := reached_start hs
  numbered := rfl
  loaded _ := id
  kept _ _ := id
  gone j hj := by cases hj
  held _ := held_start
  tells _ report hreport := by cases hreport

/-! ## Steps -/

section Steps

variable {store : KeyStore} {n : Network} {v : Service}

/-- A channel that is read or moves on is a client that goes on. -/
theorem speech_continues {c c' : Channel UInt8} (h : c.Later c') :
    (speech c).Continues (speech c') where
  sent := h.sent
  finished hfinished := by
    obtain ⟨hfinished', hsent⟩ := h.finished hfinished
    rw [speech, hsent, hfinished']
    exact congrArg (Speech.mk c.sent) hfinished.symm

/-- The service when a client goes on. -/
def Service.spoken (v : Service) (id : ℕ) (s : Speech) : Service :=
  { v with streams := Function.update v.streams id s }

theorem Serves.speaks (h : Serves verify store n v) {id : ℕ} {c : Channel UInt8}
    (hlater : (n.channels id).Later c) (keys : List PubKey) :
    Service.Step verify keys v (.speaks id (speech c)) (v.spoken id (speech c)) := by
  refine .speaks ?_
  rw [h.shows.streams id]
  exact speech_continues hlater

/-- The streams when a channel changes. -/
theorem Network.Shows.spoken_streams (h : n.Shows v) (id : ℕ) (c : Channel UInt8) (id' : ℕ) :
    (v.spoken id (speech c)).streams id' = speech (Function.update n.channels id c id') := by
  unfold Service.spoken
  by_cases hid : id' = id
  · subst hid
    dsimp only
    rw [Function.update_self, Function.update_self]
  · dsimp only
    rw [Function.update_of_ne hid, Function.update_of_ne hid]
    exact h.streams id'

/-- What pending reports tell is still so when a channel goes on. -/
theorem tells_later {channels : ℕ → Channel UInt8} {reports : List Report} {id : ℕ}
    {c : Channel UInt8} (hlater : (channels id).Later c)
    (h : ∀ report ∈ reports, ∀ id, report.origin = .connection id →
      report.event.Tells (channels id)) :
    ∀ report ∈ reports, ∀ id', report.origin = .connection id' →
      report.event.Tells (Function.update channels id c id') := by
  intro report hreport id' horigin
  have htells := h report hreport id' horigin
  by_cases hid : id' = id
  · subst hid
    rw [Function.update_self]
    exact htells.later hlater
  · rw [Function.update_of_ne hid]
    exact htells

/-- A channel goes on, and nothing is read from it while the server runs. -/
theorem Serves.goesOn (h : Serves verify store n v) {id : ℕ} {c : Channel UInt8}
    (hlater : (n.channels id).Later c)
    (hread : n.system.server.phase = .running → c.read = (n.channels id).read) :
    Serves verify store { n with channels := Function.update n.channels id c }
      (v.spoken id (speech c)) where
  shows := ⟨h.shows.spoken_streams id c, h.shows.times, h.shows.executions⟩
  sound := h.sound
  reached := h.reached
  numbered := h.numbered
  loaded := h.loaded
  kept := h.kept
  gone := h.gone
  held hrunning := (h.held hrunning).moved (hread hrunning)
  tells hrunning := tells_later hlater (h.tells hrunning)

/-- `epoll_wait` and the end of another process change nothing that is shown. -/
theorem Serves.idle (h : Serves verify store n v) {l : SystemLabel} {t : System}
    (hstep : AttributingStep verify n.system l t) (hl : ∀ a survives, l ≠ .handle a survives)
    (htells : n.system.server.phase = .running → ∀ report ∈ n.system.reported l, ∀ id,
      report.origin = .connection id → report.event.Tells (n.channels id)) :
    Serves verify store { n with system := t } v := by
  have hidle := hstep.idle hl
  exact
    { shows := ⟨h.shows.streams, by rw [hidle.log]; exact h.shows.times,
        by rw [hidle.log]; exact h.shows.executions⟩
      sound := h.sound.step hstep
      reached := hstep.reached h.reached
      numbered := by rw [hidle.resources]; exact h.numbered
      loaded := by rw [hidle.resources]; exact h.loaded
      kept := by rw [hidle.resources]; exact h.kept
      gone := fun j hj => (h.gone j hj).of_eq hidle.owner hidle.nextId
      held := fun hrunning => by
        rw [hidle.log]
        exact (h.held (hidle.running hrunning)).of_eq hidle.owner hidle.nextId
      tells := fun hrunning => by
        rw [hidle.reports]
        exact htells (hidle.running hrunning) }

/-- The server stops in the middle of an event. -/
theorem Serves.stopped (h : Serves verify store n v) {l : SystemLabel} {t : System}
    (hstep : AttributingStep verify n.system l t) (hstopped : n.system.Stopped t) :
    Serves verify store { n with system := t } v where
  shows := ⟨h.shows.streams, by rw [hstopped.log]; exact h.shows.times,
    by rw [hstopped.log]; exact h.shows.executions⟩
  sound := h.sound.step hstep
  reached := hstep.reached h.reached
  numbered := by rw [hstopped.resources]; exact h.numbered
  loaded := by rw [hstopped.resources]; exact h.loaded
  kept := by rw [hstopped.resources]; exact h.kept
  gone j hj := by rw [hstopped.kernel]; exact h.gone j hj
  held hrunning := absurd hrunning hstopped.stopped
  tells hrunning := absurd hrunning hstopped.stopped

/-- An event is handled without a decision. -/
theorem Serves.undecided (h : Serves verify store n v) {l : SystemLabel} {reports : List Report}
    {r : Resources} {obs : List Observation}
    (hstep : AttributingStep verify n.system l (n.system.handled reports r obs))
    (hsilent : ∀ o ∈ obs, o.Silent) (hkeys : r.toKeyStore = n.system.server.resources.toKeyStore)
    (hscriptN : r.scriptN = n.system.server.resources.scriptN) {channels : ℕ → Channel UInt8}
    {v' : Service} (hjudgements : v'.judgements = v.judgements)
    (hstreams : ∀ id, v'.streams id = speech (channels id))
    (hheld : Held (n.system.handled reports r obs).kernel
      (n.system.handled reports r obs).server.log channels)
    (htells : ∀ report ∈ reports, ∀ id, report.origin = .connection id →
      report.event.Tells (channels id)) :
    Serves verify store ⟨n.system.handled reports r obs, channels⟩ v' where
  shows :=
    { streams := hstreams
      times := by
        change timesRead (n.system.server.log ++ obs) = _
        rw [timesRead_append, timesRead_silent hsilent, List.append_nil, hjudgements]
        exact h.shows.times
      executions := by
        change executions (n.system.server.log ++ obs) = _
        rw [executions_append, executions_silent hsilent, List.append_nil, h.shows.executions]
        unfold Service.executions
        rw [hjudgements] }
  sound := h.sound.step hstep
  reached := hstep.reached h.reached
  numbered := by
    change r.scriptN = _
    rw [hscriptN, hjudgements]
    exact h.numbered
  loaded := by
    change ∀ key ∈ r.toKeyStore.loaded, _
    rw [hkeys]
    exact h.loaded
  kept := by
    change _ → ∀ key ∈ store.loaded, key ∈ r.toKeyStore.loaded
    rw [hkeys, hjudgements]
    exact h.kept
  gone := by
    rw [hjudgements]
    exact fun j hj => (h.gone j hj).observeAll obs
  held _ := hheld
  tells _ := htells

/-- The decision about a terminated connection is right. -/
theorem Serves.right (h : Serves verify store n v) {id : ℕ} {message : Bytes} {now : ℤ}
    {keys : KeyStore} {script : Option Bytes}
    (hauth : authenticate verify now message n.system.server.resources.toKeyStore =
      .ok (keys, script)) :
    Judgement.Right verify store.loaded v.judgements ⟨id, message, now, script⟩ := by
  have hsize := h.reached.sessions.size_le
  unfold Judgement.Right
  cases script with
  | some script =>
    obtain ⟨-, -, hscript⟩ := Safe.of_ok (authenticate_safe verify hsize) hauth
    obtain ⟨key, hmem, hvalid, haccepts⟩ := hscript script rfl
    exact ⟨key, h.loaded key hmem, hvalid,
      (key.authenticate_eq_some_iff verify message script).mp haccepts⟩
  | none =>
    by_cases hkept : ∀ j ∈ v.judgements, ∀ key ∈ store.loaded, j.now ≤ key.expiry
    · refine Or.inl fun key hkey hvalid script haccepts => ?_
      have hauthentic : Authentic verify now message n.system.server.resources.loaded :=
        (authentic_iff verify _).mpr ⟨key, h.kept hkept key hkey, hvalid, script, haccepts⟩
      obtain ⟨keys', script', hsome⟩ := (authenticate_exact verify hsize).mpr hauthentic
      rw [hauth] at hsome
      cases hsome
    · simp only [not_forall, not_le] at hkept
      obtain ⟨j, hj, key, hkey, hexpired⟩ := hkept
      exact Or.inr ⟨j, hj, key, hkey, hexpired⟩

/-- No key is lost by a decision before which none had expired. -/
theorem Serves.keeps (h : Serves verify store n v) {message : Bytes} {now : ℤ}
    {keys : KeyStore} {script : Option Bytes}
    (hauth : authenticate verify now message n.system.server.resources.toKeyStore =
      .ok (keys, script))
    (hbefore : ∀ j ∈ v.judgements, ∀ key ∈ store.loaded, j.now ≤ key.expiry)
    (hnow : ∀ key ∈ store.loaded, now ≤ key.expiry) : ∀ key ∈ store.loaded, key ∈ keys.loaded := by
  have hsettles : Settles verify now message n.system.server.resources.loaded :=
    Or.inl fun key hkey => hnow key (h.loaded key hkey)
  have hkept := (authenticate_keysKept_iff verify h.reached.sessions.size_le).mpr hsettles
  rw [hauth] at hkept
  intro key hkey
  have hcount := hkept key (hnow key hkey)
  rw [← List.count_pos_iff, hcount, List.count_pos_iff]
  exact h.kept hbefore key hkey

/-- A decision is made about a connection. -/
theorem Serves.decided (h : Serves verify store n v) {l : SystemLabel} {reports : List Report}
    {r : Resources} {slot id : ℕ} {chunks : List Bytes} {message : Bytes} {now : ℤ}
    {script : Option Bytes} {obs : List Observation} {channels : ℕ → Channel UInt8}
    (hobs : obs = chunks.map (.received slot) ++
      decisionLog slot now (n.system.server.resources.scriptN + 1) script)
    (hstep : AttributingStep verify n.system l (n.system.handled reports r obs))
    (howner : n.system.kernel.owner slot = some id)
    (hauth : authenticate verify now message n.system.server.resources.toKeyStore =
      .ok (r.toKeyStore, script))
    (hscriptN : r.scriptN = if script.isSome then n.system.server.resources.scriptN + 1
      else n.system.server.resources.scriptN)
    {streams : ℕ → Speech} (hstreams : ∀ id, streams id = speech (channels id))
    (hheld : Held (n.system.handled reports r obs).kernel
      (n.system.handled reports r obs).server.log channels)
    (htells : ∀ report ∈ reports, ∀ id, report.origin = .connection id →
      report.event.Tells (channels id)) :
    Serves verify store ⟨n.system.handled reports r obs, channels⟩
      ⟨streams, v.judgements ++ [⟨id, message, now, script⟩]⟩ where
  shows :=
    { streams := hstreams
      times := by
        change timesRead (n.system.server.log ++ obs) = _
        rw [hobs, timesRead_append, timesRead_append, timesRead_decisionLog,
          timesRead_silent fun o ho => (mem_chunks ho).2, h.shows.times, List.map_append]
        rfl
      executions := by
        have hjudged := v.executions_judged ⟨id, message, now, script⟩
        change executions (n.system.server.log ++ obs) = _
        rw [hobs, executions_append, executions_append, executions_decisionLog,
          executions_silent fun o ho => (mem_chunks ho).2, h.shows.executions, h.numbered]
        exact hjudged.symm }
  sound := h.sound.step hstep
  reached := hstep.reached h.reached
  numbered := by
    change r.scriptN = _
    rw [hscriptN, List.filterMap_append, List.length_append, ← h.numbered]
    cases script <;> rfl
  loaded := by
    obtain ⟨-, hsub, -⟩ :=
      Safe.of_ok (authenticate_safe verify h.reached.sessions.size_le) hauth
    exact fun key hkey => h.loaded key (hsub key hkey)
  kept := by
    intro hall
    have hbefore : ∀ j ∈ v.judgements, ∀ key ∈ store.loaded, j.now ≤ key.expiry :=
      fun j hj => hall j (List.mem_append_left _ hj)
    exact h.keeps hauth hbefore (hall ⟨id, message, now, script⟩ (by simp))
  gone := by
    intro j hj
    rcases List.mem_append.mp hj with hj | hj
    · exact (h.gone j hj).observeAll obs
    · obtain rfl := List.mem_singleton.mp hj
      change Gone (obs.foldl _ n.system.kernel) id
      rw [hobs, List.foldl_append, observe_chunks]
      exact gone_decided h.sound.kernel howner _ _ _
  held _ := hheld
  tells _ := htells

/-- An event of a connection: its client goes on, and may be judged then. -/
theorem Serves.connection (h : Serves verify store n v) {a : Answers} {survives : Bool}
    {t : System} {id : ℕ} {e : Event} {conn : Connection} {c : Channel UInt8}
    (hstep : AttributingStep verify n.system (.handle a survives) t)
    (hnext : n.system.next = some ⟨.connection id, e⟩)
    (hconn : n.system.server.resources.conns[e.data]? = some conn)
    (htakes : e.Takes conn a (n.channels id) c) :
    ∃ ls v', Run (Service.Step verify store.loaded) v ls v' ∧
      Serves verify store ⟨t, Function.update n.channels id c⟩ v' := by
  obtain ⟨report, reports, hreports, hrunning, hcases⟩ := h.sound.handle_cases hstep
  obtain rfl : report = ⟨.connection id, e⟩ := by
    unfold System.next at hnext
    rw [hreports] at hnext
    exact Option.some.inj hnext
  have hmem : (⟨.connection id, e⟩ : Report) ∈ n.system.reports := by
    rw [hreports]
    exact List.mem_cons_self
  have howner : n.system.kernel.owner e.data = some id := h.sound.holds hrunning _ hmem
  obtain ⟨conn', hconn', hopen⟩ := h.sound.inUse howner
  obtain rfl := Option.some.inj (hconn'.symm.trans hconn)
  have hrepresents := h.reached.represents hconn
  rw [(h.held hrunning).read e.data id howner] at hrepresents
  have htotal := h.reached.total_pos hconn hopen
  obtain ⟨hlater, hhandled⟩ := htakes.handleConn verify hconn hrepresents hopen htotal
    (h.tells hrunning _ hmem id rfl)
  have hspeaks := h.speaks hlater store.loaded
  rcases hcases with ⟨r, obs, hevent, rfl⟩ | hstopped
  · rw [handleEvent_conn (h.reached.slot_lt hconn)] at hevent
    obtain ⟨chunks, tail, hread, hobs, hcomes⟩ := hhandled r obs hevent
    have hheld : Held (n.system.handled reports r obs).kernel
        (n.system.handled reports r obs).server.log (Function.update n.channels id c) := by
      have hchunks := (h.held hrunning).chunks h.sound.kernel howner chunks hread
      have hall := hchunks.observeAll hcomes.fetchless
      change Held (obs.foldl _ n.system.kernel) (n.system.server.log ++ obs) _
      rw [hobs, List.foldl_append, observe_chunks, ← List.append_assoc]
      exact hall
    have htells : ∀ report ∈ reports, ∀ id', report.origin = .connection id' →
        report.event.Tells (Function.update n.channels id c id') := by
      refine tells_later hlater fun later hmem' => h.tells hrunning later ?_
      rw [hreports]
      exact List.mem_cons_of_mem _ hmem'
    have hstreams := h.shows.spoken_streams id c
    have hundecided (hsilent : ∀ o ∈ tail, o.Silent)
        (hkeys : r.toKeyStore = n.system.server.resources.toKeyStore)
        (hscriptN : r.scriptN = n.system.server.resources.scriptN) :
        ∃ ls v', Run (Service.Step verify store.loaded) v ls v' ∧
          Serves verify store
            ⟨n.system.handled reports r obs, Function.update n.channels id c⟩ v' := by
      have hall : ∀ o ∈ obs, o.Silent := by
        intro o ho
        rw [hobs] at ho
        exact (List.mem_append.mp ho).elim (fun ho => (mem_chunks ho).2) (hsilent o)
      exact ⟨_, _, .single hspeaks,
        h.undecided hstep hall hkeys hscriptN rfl hstreams hheld htells⟩
    cases hcomes with
    | goesOn keys scriptN => exact hundecided (by simp) keys scriptN
    | givenUp keys scriptN => exact hundecided (by simp [Observation.Silent]) keys scriptN
    | judged script drained auth scriptN =>
      obtain ⟨hfinished, -⟩ := drained.read_eq_sent
      have hjudges : Service.Step verify store.loaded (v.spoken id (speech c))
          (.judges ⟨id, c.sent, a.time, script⟩)
          ⟨(v.spoken id (speech c)).streams, v.judgements ++ [⟨id, c.sent, a.time, script⟩]⟩ := by
        refine .judges ?_ ?_ (h.right auth)
        · rw [hstreams id, Function.update_self, speech, hfinished]
        · intro hjudged
          obtain ⟨j, hj, hclient⟩ := List.mem_map.mp hjudged
          exact (h.gone j hj).2 e.data (by rw [howner, hclient])
      exact ⟨_, _, .cons hspeaks (.single hjudges),
        h.decided hobs hstep howner auth scriptN hstreams hheld htells⟩
  · refine ⟨_, _, .single hspeaks, ?_⟩
    exact (h.stopped hstep hstopped).goesOn hlater fun hrunning' =>
      absurd hrunning' hstopped.stopped

/-- An event of the listening socket is nothing to the clients. -/
theorem Serves.listener (h : Serves verify store n v) {a : Answers} {survives : Bool}
    {t : System} {e : Event} (hstep : AttributingStep verify n.system (.handle a survives) t)
    (hnext : n.system.next = some ⟨.listener, e⟩) :
    Serves verify store { n with system := t } v := by
  obtain ⟨report, reports, hreports, hrunning, hcases⟩ := h.sound.handle_cases hstep
  obtain rfl : report = ⟨.listener, e⟩ := by
    unfold System.next at hnext
    rw [hreports] at hnext
    exact Option.some.inj hnext
  have hdata : e.data = maxInt32 := h.sound.holds hrunning ⟨.listener, e⟩ (by
    rw [hreports]
    exact List.mem_cons_self)
  rcases hcases with ⟨r, obs, hevent, rfl⟩ | hstopped
  · unfold handleEvent at hevent
    dsimp only at hevent
    rw [if_pos hdata] at hevent
    have htransported := (handleAccept_yields (E := fun _ => False) a _).of_ok hevent
    have hfetchless := (handleAccept_fetchless (E := fun _ => False) a _).of_ok hevent
    refine h.undecided hstep htransported.silent htransported.keys htransported.scriptN rfl
      h.shows.streams ((h.held hrunning).observeAll hfetchless) fun later hmem => ?_
    apply h.tells hrunning
    rw [hreports]
    exact List.mem_cons_of_mem _ hmem
  · exact h.stopped hstep hstopped

end Steps

/-- Every step of the network is matched by steps of the service. -/
theorem serves_simulates (verify : PubKey → Bytes → Bytes → Bool) (store : KeyStore) :
    Simulates (Network.Step verify) (Service.Step verify store.loaded)
      (Serves verify store) := by
  intro n l n' v h hstep
  cases hstep with
  | @moves id m c move =>
    obtain ⟨hlater, hread⟩ := Channel.later_move move
    exact ⟨_, _, .single (h.speaks hlater store.loaded), h.goesOn hlater fun _ => hread⟩
  | waits step tells =>
    exact ⟨[], v, .nil v, h.idle step (fun a survives hl => by cases hl) fun _ => tells⟩
  | receives step next readable slot taken =>
    refine h.connection step next slot ?_
    unfold Event.Takes
    rw [if_pos readable]
    exact taken
  | @handles a survives t step next =>
    obtain ⟨report, reports, hreports, hrunning, -⟩ := h.sound.handle_cases step
    have hnext : n.system.next = some report := by
      unfold System.next
      rw [hreports]
      rfl
    obtain ⟨origin, e⟩ := report
    cases origin with
    | listener => exact ⟨[], v, .nil v, h.listener step hnext⟩
    | connection id =>
      have howner : n.system.kernel.owner e.data = some id :=
        h.sound.holds hrunning ⟨.connection id, e⟩ (by
          rw [hreports]
          exact List.mem_cons_self)
      obtain ⟨conn, hconn, -⟩ := h.sound.inUse howner
      have htakes : e.Takes conn a (n.channels id) (n.channels id) := by
        unfold Event.Takes
        rw [if_neg (by rw [next id e hnext]; exact Bool.false_ne_true)]
      have hmatched := h.connection step hnext hconn htakes
      rwa [Function.update_eq_self] at hmatched
  | fails step =>
    exact ⟨[], v, .nil v, h.idle step (fun a survives hl => by cases hl) h.tells⟩
  | releases step =>
    exact ⟨[], v, .nil v, h.idle step (fun a survives hl => by cases hl) h.tells⟩

/-- The network refines the service as long as its steps attribute events: in whatever way the
clients write, the streams are cut and delayed, events are batched and slots are used again,
the server judges every client at most once, by all it has sent and by a key that has not
expired, and executes the scripts in the order of these judgements. -/
theorem network_refines_service (verify : PubKey → Bytes → Bytes → Bool) (store : KeyStore)
    (hs : store.keysSize ≤ store.keys.length) (labels : List NetworkLabel) (n : Network)
    (hrun : Run (Network.Step verify) (Network.start store) labels n) :
    ∃ ls v, Run (Service.Step verify store.loaded) Service.start ls v ∧ n.Shows v := by
  obtain ⟨ls, v, hmatched, hserves⟩ := (serves_simulates verify store).run hrun (serves_start hs)
  exact ⟨ls, v, hmatched, hserves.shows⟩

/-- A client sends two bytes and finishes, the first before it is accepted. -/
def twoByteSession : List NetworkLabel :=
  [.moves 0 (.write [10]), .acts (.wait [listenerReport]),
    .acts (.handle (quietAnswers 0) false), .moves 0 (.write [42]), .moves 0 (.arrive 2),
    .moves 0 .finish, .moves 0 .arriveEnd, .acts (.wait [terminationReport 0 0]),
    .acts (.handle { quietAnswers 0 with recvs := [.data [10, 42], .data []] } false)]

theorem twoByteSession_run :
    ∃ n : Network, Run (Network.Step fun _ _ _ => true) (Network.start (keysUntil [1]))
      twoByteSession n ∧ executions n.system.server.log = [([42], 1)] := by
  have hsystem : ∃ s₁ s₂ s₃ s₄ : System, ∃ conn : Connection,
      AttributingStep (fun _ _ _ => true) (.start (keysUntil [1])) (.wait [listenerReport]) s₁ ∧
      s₁.next = some listenerReport ∧
      AttributingStep (fun _ _ _ => true) s₁ (.handle (quietAnswers 0) false) s₂ ∧
      AttributingStep (fun _ _ _ => true) s₂ (.wait [terminationReport 0 0]) s₃ ∧
      s₃.next = some (terminationReport 0 0) ∧
      s₃.server.resources.conns[0]? = some conn ∧ conn.bufSize = 0 ∧ conn.bufCap = kilobyte ∧
      AttributingStep (fun _ _ _ => true) s₃
        (.handle { quietAnswers 0 with recvs := [.data [10, 42], .data []] } false) s₄ ∧
      executions s₄.server.log = [([42], 1)] := by
    have haccept : (quietAnswers 0).accept ≠ 0 := by decide
    exact ⟨_, _, _, _, _, attributingStep_wait rfl, rfl, attributingStep_only rfl haccept rfl,
      attributingStep_wait rfl, rfl, rfl, rfl, rfl, attributingStep_only rfl haccept rfl, rfl⟩
  obtain ⟨s₁, s₂, s₃, s₄, conn, hwait, hnext, haccept, hwait', hnext', hconn, hsize, hcap,
    hhandle, hexecutions⟩ := hsystem
  have hreceives : Receives conn ⟨[], [10, 42], [], true, true, false, fun _ => ⟨rfl, rfl⟩⟩
      [.data [10, 42], .data []] ⟨[10, 42], [], [], true, true, false, fun _ => ⟨rfl, rfl⟩⟩ := by
    have hsmall : 2 < maxScriptSize := by decide
    have htake : ([10, 42] : Bytes).take (conn.bufCap - conn.bufSize) = [10, 42] := by
      rw [hsize, hcap]
      rfl
    refine .taken (by simp) ⟨[], rfl⟩ ?_ ?_
    · rw [htake]
      simpa [Connection.append, hsize] using hsmall
    · rw [htake]
      exact .ended _ _ ⟨rfl, rfl⟩
  refine ⟨_, .cons (.moves rfl) (.cons (.waits hwait ?_) (.cons (.handles haccept ?_)
    (.cons (.moves rfl) (.cons (.moves rfl) (.cons (.moves rfl) (.cons (.moves rfl)
      (.cons (.waits hwait' ?_) (.cons (.receives hhandle hnext' rfl hconn hreceives)
        (.nil _))))))))), hexecutions⟩
  · rintro report hreport id horigin
    obtain rfl := List.mem_singleton.mp hreport
    cases horigin
  · rintro id e hconnection
    change s₁.next = _ at hconnection
    rw [hnext] at hconnection
    cases hconnection
  · rintro report hreport id horigin -
    obtain rfl := List.mem_singleton.mp hreport
    cases horigin
    exact ⟨rfl, Or.inl rfl⟩

theorem network_refines_service_two_bytes :
    ∃ n : Network, executions n.system.server.log = [([42], 1)] ∧
      ∃ ls v, Run (Service.Step (fun _ _ _ => true) (keysUntil [1]).loaded) Service.start ls v ∧
        n.Shows v := by
  obtain ⟨n, hrun, hexecutions⟩ := twoByteSession_run
  exact ⟨n, hexecutions, network_refines_service _ _ (by decide) _ n hrun⟩

/-! ## Decisions about clients -/

/-- What every step of the service keeps. -/
structure Service.Settled (verify : PubKey → Bytes → Bytes → Bool) (keys : List PubKey)
    (v : Service) : Prop where
  once : (v.judgements.map Judgement.client).Nodup
  whole : ∀ j ∈ v.judgements, v.streams j.client = ⟨j.message, true⟩
  some_right : ∀ j ∈ v.judgements, ∀ script, j.script = some script →
    ∃ key ∈ keys, j.now ≤ key.expiry ∧ key.Accepts verify j.message script
  none_right : (∀ j ∈ v.judgements, ∀ key ∈ keys, j.now ≤ key.expiry) →
    ∀ j ∈ v.judgements, j.script = none →
      ∀ key ∈ keys, ∀ script, ¬ key.Accepts verify j.message script

theorem Service.settled_start (keys : List PubKey) : Service.start.Settled verify keys where
  once := List.nodup_nil
  whole j hj := by cases hj
  some_right j hj := by cases hj
  none_right _ j hj := by cases hj

theorem Service.Settled.step {keys : List PubKey} {v v' : Service} {l : ServiceLabel}
    (h : v.Settled verify keys) (hstep : Service.Step verify keys v l v') :
    v'.Settled verify keys := by
  cases hstep with
  | @speaks client speech continues =>
    refine ⟨h.once, fun j hj => ?_, h.some_right, h.none_right⟩
    have hwhole := h.whole j hj
    by_cases hclient : j.client = client
    · -- a finished stream stays as it is
      have hfinished : (v.streams client).finished = true := by rw [← hclient, hwhole]
      dsimp only
      rw [hclient, Function.update_self, continues.finished hfinished, ← hclient, hwhole]
    · dsimp only
      rw [Function.update_of_ne hclient, hwhole]
  | @judges j whole first right =>
    refine ⟨?_, ?_, ?_, ?_⟩
    · rw [List.map_append, List.map_singleton, List.nodup_append]
      refine ⟨h.once, List.nodup_singleton _, fun client hclient client' hclient' heq => ?_⟩
      rw [heq, List.mem_singleton.mp hclient'] at hclient
      exact first hclient
    · intro j' hj'
      rcases List.mem_append.mp hj' with hj' | hj'
      · exact h.whole j' hj'
      · obtain rfl := List.mem_singleton.mp hj'
        exact whole
    · intro j' hj' script hscript
      rcases List.mem_append.mp hj' with hj' | hj'
      · exact h.some_right j' hj' script hscript
      · obtain rfl := List.mem_singleton.mp hj'
        rw [Judgement.Right, hscript] at right
        exact right
    · intro hvalid j' hj' hnone
      have hearlier : ∀ j ∈ v.judgements, ∀ key ∈ keys, j.now ≤ key.expiry :=
        fun j hj => hvalid j (List.mem_append_left _ hj)
      rcases List.mem_append.mp hj' with hj | hj
      · exact h.none_right hearlier j' hj hnone
      · obtain rfl := List.mem_singleton.mp hj
        rw [Judgement.Right, hnone] at right
        rcases right with hright | ⟨before, hbefore, key, hkey, hexpired⟩
        · exact fun key hkey => hright key hkey (hvalid j' hj' key hkey)
        · have := hearlier before hbefore key hkey
          omega

/-- What the service keeps, in terms of the network that shows it. -/
theorem Network.Shows.decided {n : Network} {v : Service} {keys : List PubKey} (h : n.Shows v)
    (hsettled : v.Settled verify keys) :
    n.Decided verify keys (v.judgements.map fun j => (j.client, j.script)) := by
  have hsent : ∀ j ∈ v.judgements,
      (n.channels j.client).finished = true ∧ (n.channels j.client).sent = j.message := by
    intro j hj
    have hwhole := hsettled.whole j hj
    rw [h.streams] at hwhole
    exact ⟨congrArg Speech.finished hwhole, congrArg Speech.sent hwhole⟩
  have htimes (j : Judgement) (hj : j ∈ v.judgements) :
      j.now ∈ timesRead n.system.server.log := by
    rw [h.times]
    exact List.mem_map_of_mem hj
  refine ⟨?_, ?_, ?_, ?_, ?_⟩
  · rw [List.map_map]
    exact hsettled.once
  · intro d hd
    obtain ⟨j, hj, rfl⟩ := List.mem_map.mp hd
    exact (hsent j hj).1
  · intro d hd
    obtain ⟨j, hj, rfl⟩ := List.mem_map.mp hd
    cases hscript : j.script with
    | some script =>
      obtain ⟨key, hkey, hvalid, haccepts⟩ := hsettled.some_right j hj script hscript
      rw [← (hsent j hj).2] at haccepts
      exact ⟨key, hkey, haccepts, j.now, htimes j hj, hvalid⟩
    | none =>
      intro hvalid key hkey script haccepts
      rw [(hsent j hj).2] at haccepts
      exact hsettled.none_right (fun j hj => hvalid j.now (htimes j hj)) j hj hscript key hkey
        script haccepts
  · rw [h.times, List.length_map, List.length_map]
  · rw [h.executions, List.filterMap_map]
    rfl

/-- As long as the steps attribute events, no client is decided about twice, each by all that
it has sent, and the scripts that are executed are those that the keys accept. -/
theorem clients_decided_once (verify : PubKey → Bytes → Bytes → Bool) (store : KeyStore)
    (hs : store.keysSize ≤ store.keys.length) (labels : List NetworkLabel) (n : Network)
    (hrun : Run (Network.Step verify) (Network.start store) labels n) :
    ∃ decisions, n.Decided verify store.loaded decisions := by
  obtain ⟨v, hserves, hsettled⟩ := (serves_simulates verify store).invariant
    (fun v l v' h hstep => Service.Settled.step h hstep) hrun (serves_start hs)
    (Service.settled_start store.loaded)
  exact ⟨_, hserves.shows.decided hsettled⟩

theorem clients_decided_once_two_bytes :
    ∃ n : Network, executions n.system.server.log = [([42], 1)] ∧
      ∃ decisions, n.Decided (fun _ _ _ => true) (keysUntil [1]).loaded decisions := by
  obtain ⟨n, hrun, hexecutions⟩ := twoByteSession_run
  exact ⟨n, hexecutions, clients_decided_once _ _ (by decide) _ n hrun⟩

end X509Server
