import X509Server.Analysis.ExpirySpec
import X509Server.Analysis.TrackSpec
import X509Server.Interface.Kernel

/-!
# Attribution of events

A slot is opened only while the kernel has no connection in it, so the kernel's view of the
slots and the server's agree (`KernelOk`).  An event that is still to be handled then carries
the slot of its own connection as long as nothing before it in the batch is about that slot:
the events of other connections are not, and the listening socket is only by an eviction.
-/

set_option autoImplicit false

namespace X509Server

open Checked Runs

variable {verify : PubKey → Bytes → Bytes → Bool}

/-! ## Open slots -/

/-- A slot with a session has a descriptor. -/
def InUse (session : Option Bytes) (conn : Connection) : Prop :=
  session.isSome = true → 0 < conn.fd

theorem InUse.touch {a : Answers} (ha : a.accept ≠ 0) {session : Option Bytes}
    {conn conn' : Connection} {o : Observation} (h : InUse session conn)
    (htouch : Touch a conn o conn') : InUse (observe o.slot session o) conn' := by
  cases htouch with
  | opened slot unused accepted =>
    intro _
    rw [conn.attach_fd]
    omega
  | received slot chunk inUse allocated room =>
    intro _
    rw [conn.store_fd]
    exact inUse
  | terminated slot inUse => exact h
  | executed slot script n inUse => exact h
  | closed slot inUse =>
    intro hsession
    simp [observe, Observation.slot] at hsession

/-- A slot is opened only while it has no session. -/
theorem opened_free {a : Answers} (ha : a.accept ≠ 0) {log obs : List Observation}
    {conns conns' : List Connection} (h : Along InUse log conns)
    (hhandled : Handled a conns conns' obs) :
    Logged (fun before o => ∀ slot, o = .opened slot → received slot (log ++ before) = none)
      obs := by
  rintro before _ after rfl slot rfl
  have hlt : slot < conns.length := hhandled.inRange (.opened slot) (by simp)
  obtain ⟨conn', hconn', hrun⟩ := hhandled.touches slot _ (List.getElem?_eq_getElem hlt)
  rw [List.filter_append, List.filter_cons_of_pos (by simp [Observation.slot])] at hrun
  obtain ⟨conn, hbefore, hafter⟩ := hrun.split
  have hinUse := along_run (fun h => h.touch ha) (h slot _ (List.getElem?_eq_getElem hlt))
    (fun o ho => of_decide_eq_true (List.mem_filter.mp ho).2) hbefore
  rw [← received_append] at hinUse
  cases hafter with
  | cons head tail =>
    cases head with
    | opened slot unused accepted =>
      cases hsession : received slot (log ++ before) with
      | none => rfl
      | some session =>
        have := hinUse (by rw [hsession]; rfl)
        omega

/-! ## The kernel -/

/-- The kernel and the log agree on the connections, and no other process has one. -/
structure KernelOk (k : Kernel) (log : List Observation) : Prop where
  live : ∀ i, (k.owner i).isSome = (received i log).isSome
  inRange : ∀ i id, k.owner i = some id → i < maxConcurrency
  below : ∀ i id, k.owner i = some id → id < k.nextId
  injective : ∀ i j id, k.owner i = some id → k.owner j = some id → i = j
  registered : ∀ id i, (id, i) ∈ k.registered → k.owner i = some id
  inherited : k.inherited = []

theorem kernelOk_start : KernelOk .start [] where
  live _ := rfl
  inRange _ _ h := by cases h
  below _ _ h := by cases h
  injective _ _ _ h := by cases h
  registered _ _ h := by cases h
  inherited := rfl

theorem received_snoc (i : ℕ) (log : List Observation) (o : Observation) :
    received i (log ++ [o]) = observe i (received i log) o := by
  unfold received
  rw [List.foldl_append]
  rfl

/-- Opening a slot without a connection. -/
theorem KernelOk.opened {k : Kernel} {log : List Observation} (h : KernelOk k log) {slot : ℕ}
    (hslot : slot < maxConcurrency) (hfree : received slot log = none) :
    KernelOk (k.observe false (.opened slot)) (log ++ [.opened slot]) := by
  have hnone : k.owner slot = none := by
    have hlive := h.live slot
    rw [hfree] at hlive
    cases howner : k.owner slot with
    | none => rfl
    | some id =>
      rw [howner] at hlive
      cases hlive
  refine ⟨fun i => ?_, fun i id hi => ?_, fun i id hi => ?_, fun i j id hi hj => ?_,
    fun id i hmem => ?_, h.inherited⟩
  · rw [received_snoc]
    by_cases his : i = slot
    · simp [Kernel.observe, observe, his]
    · simpa [Kernel.observe, observe, his, Ne.symm his] using h.live i
  · by_cases his : i = slot
    · exact his ▸ hslot
    · simp only [Kernel.observe, if_neg his] at hi
      exact h.inRange i id hi
  · by_cases his : i = slot
    · simp only [Kernel.observe, if_pos his] at hi ⊢
      obtain rfl := Option.some.inj hi
      omega
    · simp only [Kernel.observe, if_neg his] at hi ⊢
      have := h.below i id hi
      omega
  · by_cases his : i = slot <;> by_cases hjs : j = slot
    · rw [his, hjs]
    · simp only [Kernel.observe, if_pos his, if_neg hjs] at hi hj
      obtain rfl := Option.some.inj hi
      have := h.below j _ hj
      omega
    · simp only [Kernel.observe, if_neg his, if_pos hjs] at hi hj
      obtain rfl := Option.some.inj hj
      have := h.below i _ hi
      omega
    · simp only [Kernel.observe, if_neg his, if_neg hjs] at hi hj
      exact h.injective i j id hi hj
  · simp only [Kernel.observe, List.mem_cons, Prod.mk.injEq] at hmem
    rcases hmem with ⟨rfl, rfl⟩ | hmem
    · exact if_pos rfl
    · have howner := h.registered id i hmem
      have his : i ≠ slot := by
        rintro rfl
        rw [hnone] at howner
        cases howner
      simp only [Kernel.observe, if_neg his]
      exact howner

/-- Closing a slot ends the registration of its connection. -/
theorem KernelOk.closed {k : Kernel} {log : List Observation} (h : KernelOk k log) (slot : ℕ) :
    KernelOk (k.observe false (.closed slot)) (log ++ [.closed slot]) := by
  have howner : ∀ i id, (k.observe false (.closed slot)).owner i = some id →
      i ≠ slot ∧ k.owner i = some id := by
    intro i id hi
    by_cases his : i = slot
    · simp [Kernel.observe, his] at hi
    · simp only [Kernel.observe, if_neg his] at hi
      exact ⟨his, hi⟩
  refine ⟨fun i => ?_, fun i id hi => h.inRange i id (howner i id hi).2,
    fun i id hi => h.below i id (howner i id hi).2,
    fun i j id hi hj => h.injective i j id (howner i id hi).2 (howner j id hj).2,
    fun id i hmem => ?_, h.inherited⟩
  · rw [received_snoc]
    by_cases his : i = slot
    · simp [Kernel.observe, observe, his]
    · simpa [Kernel.observe, observe, his, Ne.symm his] using h.live i
  · simp only [Kernel.observe, h.inherited, List.not_mem_nil, false_or, List.mem_filter,
      decide_eq_true_eq] at hmem
    have hold := h.registered id i hmem.1
    have his : i ≠ slot := by
      rintro rfl
      exact hmem.2 hold
    simp only [Kernel.observe, if_neg his]
    exact hold

/-- One observation. -/
theorem KernelOk.observe {k : Kernel} {log : List Observation} (h : KernelOk k log)
    {o : Observation} (hslot : o.slot < maxConcurrency)
    (hfree : ∀ slot, o = .opened slot → received slot log = none) :
    KernelOk (k.observe false o) (log ++ [o]) := by
  have hsame : (∀ i, received i (log ++ [o]) = received i log) → k.observe false o = k →
      KernelOk (k.observe false o) (log ++ [o]) := by
    intro hlog hk
    rw [hk]
    exact ⟨fun i => by rw [hlog]; exact h.live i, h.inRange, h.below, h.injective,
      h.registered, h.inherited⟩
  cases o with
  | opened slot => exact h.opened hslot (hfree slot rfl)
  | closed slot => exact h.closed slot
  | received slot chunk =>
    refine ⟨fun i => ?_, h.inRange, h.below, h.injective, h.registered, h.inherited⟩
    rw [received_snoc, X509Server.observe]
    split
    · rw [Option.isSome_map]
      exact h.live i
    · exact h.live i
  | terminated slot now => exact hsame (fun i => received_snoc i log _) rfl
  | executed slot script n => exact hsame (fun i => received_snoc i log _) rfl

/-- The observations of a step. -/
theorem KernelOk.observeAll {k : Kernel} {log obs : List Observation} (h : KernelOk k log)
    (hslot : ∀ o ∈ obs, o.slot < maxConcurrency)
    (hfree : Logged (fun before o => ∀ slot, o = .opened slot →
      received slot (log ++ before) = none) obs) :
    KernelOk (obs.foldl (fun k o => k.observe false o) k) (log ++ obs) := by
  induction obs generalizing k log with
  | nil =>
    rw [List.append_nil]
    exact h
  | cons o obs ih =>
    have hfirst := h.observe (hslot o (by simp)) fun slot ho => by
      have := hfree [] o obs rfl slot ho
      rwa [List.append_nil] at this
    have hrest : Logged (fun before o' => ∀ slot, o' = .opened slot →
        received slot (log ++ [o] ++ before) = none) obs := by
      rintro before o' after rfl slot ho'
      have := hfree (o :: before) o' after rfl slot ho'
      rwa [List.append_cons] at this
    have hall := ih hfirst (fun o ho => hslot o (List.mem_cons_of_mem _ ho)) hrest
    rwa [List.append_assoc] at hall

/-- Observations about other slots do not change the connection in a slot. -/
theorem observeAll_owner {obs : List Observation} {j : ℕ} (h : ∀ o ∈ obs, o.slot ≠ j)
    (k : Kernel) (survives : Bool) :
    (obs.foldl (fun k o => k.observe survives o) k).owner j = k.owner j := by
  induction obs generalizing k with
  | nil => rfl
  | cons o obs ih =>
    rw [List.foldl_cons, ih fun o ho => h o (List.mem_cons_of_mem _ ho)]
    have hne := h o (by simp)
    cases o with
    | opened slot => exact if_neg (Ne.symm hne)
    | closed slot => exact if_neg (Ne.symm hne)
    | received slot chunk => rfl
    | terminated slot now => rfl
    | executed slot script n => rfl

/-! ## The system -/

/-- A report whose connection is the one in its slot. -/
def Kernel.Holds (k : Kernel) (report : Report) : Prop :=
  match report.origin with
  | .listener => report.event.data = maxInt32
  | .connection id => k.owner report.event.data = some id

theorem KernelOk.holds {k : Kernel} {log : List Observation} (h : KernelOk k log)
    {report : Report} (hadmits : k.Admits report) : k.Holds report := by
  obtain ⟨origin, event⟩ := report
  cases origin with
  | listener => exact hadmits
  | connection id => exact h.registered id event.data hadmits

/-- The invariant of the system: server and kernel agree, and the reports of the batch that
are still to be handled are about different connections, each in its slot. -/
structure System.Sound (s : System) : Prop where
  conns : Along InUse s.server.log s.server.resources.conns
  length_eq : s.server.resources.conns.length = maxConcurrency
  kernel : KernelOk s.kernel s.server.log
  pending : s.server.phase = .running → s.server.pending = s.reports.map Report.event
  holds : s.server.phase = .running → ∀ report ∈ s.reports, s.kernel.Holds report
  nodup : s.server.phase = .running → (s.reports.map Report.origin).Nodup

theorem System.sound_start (store : KeyStore) : (System.start store).Sound where
  conns := along_start store fun h => by cases h
  length_eq := List.length_replicate
  kernel := kernelOk_start
  pending _ := rfl
  holds _ := by simp [System.start]
  nodup _ := List.nodup_nil

/-- The connection the kernel has in a slot is in use. -/
theorem System.Sound.inUse {s : System} (h : s.Sound) {i id : ℕ}
    (howner : s.kernel.owner i = some id) :
    ∃ conn, s.server.resources.conns[i]? = some conn ∧ 0 < conn.fd := by
  have hlt : i < s.server.resources.conns.length := by
    rw [h.length_eq]
    exact h.kernel.inRange i id howner
  refine ⟨_, List.getElem?_eq_getElem hlt, h.conns i _ (List.getElem?_eq_getElem hlt) ?_⟩
  rw [← h.kernel.live i, howner]
  rfl

/-- The events of connections carry a slot. -/
theorem System.Sound.data_ne {s : System} (h : s.Sound) {i id : ℕ}
    (howner : s.kernel.owner i = some id) : i ≠ maxInt32 := by
  have := h.kernel.inRange i id howner
  have := maxConcurrency_lt
  omega

/-- In a sound system events are attributed. -/
theorem System.Sound.attributed {s : System} (h : s.Sound) : s.Attributed verify := by
  intro hrunning id event reports hreports
  have howner : s.kernel.owner event.data = some id :=
    h.holds hrunning ⟨.connection id, event⟩ (by rw [hreports]; simp)
  refine ⟨⟨reports.map Report.event, by rw [h.pending hrunning, hreports]; rfl⟩, howner,
    h.inUse howner, fun a r obs hevent => ?_⟩
  rcases handleEvent_about verify hevent with ⟨hlistener, -⟩ | ⟨-, habout⟩
  · exact absurd hlistener (h.data_ne howner)
  · exact habout

/-- Handling an event is not about the slot of an event later in the batch. -/
theorem System.Sound.untouched {s : System} (h : s.Sound) (hrunning : s.server.phase = .running)
    {report : Report} {reports : List Report} (hreports : s.reports = report :: reports)
    {a : Answers} {r : Resources} {obs : List Observation}
    (hevent : handleEvent verify report.event a s.server.resources = .ok (r, obs))
    (hevicts : report.event.data = maxInt32 → ∀ i, s.server.resources.Evicts i →
      ∀ later ∈ reports, later.event.data ≠ i)
    {later : Report} (hlater : later ∈ reports) {id : ℕ} (horigin : later.origin = .connection id) :
    ∀ o ∈ obs, o.slot ≠ later.event.data := by
  have hholds := h.holds hrunning later (by rw [hreports]; exact List.mem_cons_of_mem _ hlater)
  have howner : s.kernel.owner later.event.data = some id := by
    unfold Kernel.Holds at hholds
    rw [horigin] at hholds
    exact hholds
  intro o ho heq
  rcases handleEvent_about verify hevent with ⟨hlistener, habout⟩ | ⟨hlistener, habout⟩
  · have hvacant := habout o ho
    rw [heq] at hvacant
    rcases hvacant with hev | ⟨conn, hconn, hunused⟩
    · exact hevicts hlistener _ hev later hlater rfl
    · obtain ⟨conn', hconn', hfd⟩ := h.inUse howner
      obtain rfl := Option.some.inj (hconn.symm.trans hconn')
      omega
  · have hslot := habout o ho
    -- both reports are of the connection in one slot, so they have the same origin
    have hfirst := h.holds hrunning report (by rw [hreports]; simp)
    unfold Kernel.Holds at hfirst
    cases hfirstOrigin : report.origin with
    | listener =>
      rw [hfirstOrigin] at hfirst
      exact hlistener hfirst
    | connection id' =>
      rw [hfirstOrigin] at hfirst
      dsimp only at hfirst
      rw [← hslot, heq, howner] at hfirst
      obtain rfl := Option.some.inj hfirst
      have hnodup := h.nodup hrunning
      rw [hreports, List.map_cons, List.nodup_cons] at hnodup
      refine hnodup.1 (List.mem_map.mpr ⟨later, hlater, ?_⟩)
      rw [horigin, hfirstOrigin]

/-- Handling an event keeps the system sound. -/
theorem System.Sound.handle {s : System} (h : s.Sound) (hrunning : s.server.phase = .running)
    {report : Report} {reports : List Report} (hreports : s.reports = report :: reports)
    {a : Answers} {r : Resources} {obs : List Observation}
    (hevent : handleEvent verify report.event a s.server.resources = .ok (r, obs))
    (haccept : report.event.data = maxInt32 → a.accept ≠ 0)
    (hevicts : report.event.data = maxInt32 → ∀ i, s.server.resources.Evicts i →
      ∀ later ∈ reports, later.event.data ≠ i) :
    System.Sound
      { server := s.server.advance (reports.map Report.event) (.ok (r, obs))
        kernel := obs.foldl (fun k o => k.observe false o) s.kernel
        reports } := by
  obtain ⟨b, hb, hevent⟩ := handleEvent_accepting haccept hevent
  have hhandled := ((handleEvent_yields verify b report.event s.server.resources).of_ok hevent).1
  have hinRange : ∀ o ∈ obs, o.slot < maxConcurrency := by
    intro o ho
    rw [← h.length_eq]
    exact hhandled.inRange o ho
  refine ⟨h.conns.handled (fun h => h.touch hb) hhandled, hhandled.length_eq.trans h.length_eq,
    h.kernel.observeAll hinRange (opened_free hb h.conns hhandled), fun _ => rfl,
    fun _ later hlater => ?_, fun _ => ?_⟩
  · have hold := h.holds hrunning later (by rw [hreports]; exact List.mem_cons_of_mem _ hlater)
    have huntouched : ∀ id, later.origin = .connection id →
        ∀ o ∈ obs, o.slot ≠ later.event.data :=
      fun id => h.untouched hrunning hreports hevent hevicts hlater
    unfold Kernel.Holds at hold ⊢
    cases horigin : later.origin with
    | listener =>
      rw [horigin] at hold
      exact hold
    | connection id =>
      rw [horigin] at hold
      dsimp only at hold ⊢
      rw [observeAll_owner (huntouched id horigin)]
      exact hold
  · have hnodup := h.nodup hrunning
    rw [hreports, List.map_cons, List.nodup_cons] at hnodup
    exact hnodup.2

/-- A guarded step keeps the system sound. -/
theorem System.Sound.step {s t : System} {l : SystemLabel} (h : s.Sound)
    (hstep : AttributingStep verify s l t) : t.Sound := by
  obtain ⟨hstep, hguard⟩ := hstep
  cases l with
  | waitFailed =>
    simp only [System.step, Option.map_eq_some_iff] at hstep
    obtain ⟨server, hserver, rfl⟩ := hstep
    rcases Server.step_cases verify hserver with ⟨-, rfl⟩ | ⟨events, hl, -⟩ | ⟨a, e, events, hl, -⟩
    · exact ⟨h.conns, h.length_eq, h.kernel, (nomatch ·), (nomatch ·), (nomatch ·)⟩
    · cases hl
    · cases hl
  | wait reports =>
    simp only [System.step] at hstep
    split at hstep
    · rename_i hadmitted
      simp only [Option.map_eq_some_iff] at hstep
      obtain ⟨server, hserver, rfl⟩ := hstep
      rcases Server.step_cases verify hserver with ⟨hl, -⟩ | ⟨events, hl, -, -, rfl⟩ |
        ⟨a, e, events, hl, -⟩
      · cases hl
      · obtain rfl := Label.wait.inj hl
        exact ⟨h.conns, h.length_eq, h.kernel, fun _ => rfl,
          fun _ report hreport => h.kernel.holds (hadmitted.1 report hreport),
          fun _ => hadmitted.2⟩
      · cases hl
    · cases hstep
  | release id =>
    simp only [System.step, Option.some.injEq] at hstep
    subst hstep
    refine ⟨h.conns, h.length_eq, ⟨h.kernel.live, h.kernel.inRange, h.kernel.below,
      h.kernel.injective, fun id' i hmem => ?_, ?_⟩, h.pending, h.holds, h.nodup⟩
    · exact h.kernel.registered id' i (List.mem_of_mem_filter hmem)
    · simp [Kernel.release, h.kernel.inherited]
  | handle a survives =>
    obtain ⟨rfl, hlistens⟩ := hguard a survives rfl
    simp only [System.step, Option.map_eq_some_iff] at hstep
    obtain ⟨server, hserver, rfl⟩ := hstep
    rcases Server.step_cases verify hserver with ⟨hl, -⟩ | ⟨events, hl, -⟩ |
      ⟨a', e, events, hl, hrunning, hpending, rfl⟩
    · cases hl
    · cases hl
    · obtain rfl := Label.handle.inj hl
      have hevents := h.pending hrunning
      rw [hpending] at hevents
      obtain ⟨report, reports, hreports, rfl, rfl⟩ := List.map_eq_cons_iff.mp hevents.symm
      cases hevent : handleEvent verify report.event a s.server.resources with
      | error stop =>
        have hidle : ∀ phase, phase ≠ .running → System.Sound
            { server := { s.server with phase }
              kernel := (s.server.log.drop s.server.log.length).foldl
                (fun k o => k.observe false o) s.kernel
              reports := s.reports.tail } := by
          intro phase hphase
          rw [List.drop_length]
          exact ⟨h.conns, h.length_eq, h.kernel, fun hr => absurd hr hphase,
            fun hr => absurd hr hphase, fun hr => absurd hr hphase⟩
        cases stop with
        | code reason => exact hidle _ (by simp)
        | fault fault => exact hidle _ (by simp)
      | ok p =>
        obtain ⟨r, obs⟩ := p
        have hguard := hlistens report reports hreports
        have hsound := h.handle hrunning hreports hevent (fun hlistener => (hguard hlistener).1)
          fun hlistener => (hguard hlistener).2
        simpa only [Server.advance, List.drop_left, hreports, List.tail_cons] using hsound

/-- In every run all of whose steps meet the condition, every event is handled for the
connection it was reported for. -/
theorem events_attributed (verify : PubKey → Bytes → Bytes → Bool) (store : KeyStore)
    (labels : List SystemLabel) (s : System)
    (hrun : Run (AttributingStep verify) (System.start store) labels s) :
    s.Attributed verify := by
  have hsound : s.Sound :=
    hrun.invariant (fun s l t h hstep => h.step hstep) (System.sound_start store)
  exact hsound.attributed

/-! ## Examples -/

def listenerReport : Report := ⟨.listener, ⟨maxInt32, true, false, false, false⟩⟩

/-- Waiting meets the condition. -/
theorem attributingStep_wait {s t : System} {reports : List Report}
    (hstep : s.step verify (.wait reports) = some t) :
    AttributingStep verify s (.wait reports) t := by
  refine ⟨hstep, ?_⟩
  rintro a survives ⟨⟩

/-- So does the only event of a batch, if `accept` does not answer 0. -/
theorem attributingStep_only {s t : System} {report : Report} {a : Answers}
    (hreports : s.reports = [report]) (haccept : a.accept ≠ 0)
    (hstep : s.step verify (.handle a false) = some t) :
    AttributingStep verify s (.handle a false) t := by
  refine ⟨hstep, ?_⟩
  rintro a survives ⟨⟩
  refine ⟨rfl, fun report' reports hnext _ => ⟨haccept, fun i _ later hlater => ?_⟩⟩
  obtain ⟨-, rfl⟩ := List.cons.inj (hreports.symm.trans hnext)
  cases hlater

/-- The connection with this number, in this slot, has terminated. -/
def terminationReport (id slot : ℕ) : Report := ⟨.connection id, ⟨slot, true, true, false, false⟩⟩

/-- A connection arrives and terminates. -/
theorem events_attributed_termination :
    ∃ s : System, s.reports = [terminationReport 0 0] ∧ s.Attributed fun _ _ _ => true := by
  have hrun : ∃ s : System, Run (AttributingStep fun _ _ _ => true)
      (System.start (keysUntil [1]))
      [.wait [listenerReport], .handle (quietAnswers 0) false, .wait [terminationReport 0 0]] s ∧
      s.reports = [terminationReport 0 0] := by
    exact ⟨_, .cons (attributingStep_wait rfl) (.cons (attributingStep_only rfl (by decide) rfl)
      (.cons (attributingStep_wait rfl) (.nil _))), rfl⟩
  obtain ⟨s, hrun, hreports⟩ := hrun
  exact ⟨s, hreports, events_attributed _ _ _ s hrun⟩

/-- A full table, and a batch with a new connection in front of the termination of the
oldest one. -/
def evictingBatch : List SystemLabel :=
  (List.replicate maxConcurrency
    [.wait [listenerReport], .handle (quietAnswers 0) false]).flatten ++
    [.wait [listenerReport, terminationReport 0 0], .handle (quietAnswers 0) false]

/-- The new connection is in the slot of the evicted one when the event of that is handled. -/
theorem evicted_event_misattributed :
    ¬ ∀ (labels : List SystemLabel) (s : System),
      Run (fun s l t => s.step (fun _ _ _ => true) l = some t) (System.start (keysUntil [1]))
        labels s → s.Attributed fun _ _ _ => true := by
  intro hall
  have hend : (evictingBatch.foldlM (System.step fun _ _ _ => true)
      (System.start (keysUntil [1]))).map
        (fun s => (s.server.phase, s.reports, s.kernel.owner 0)) =
      some (.running, [terminationReport 0 0], some maxConcurrency) := by
    decide +kernel
  obtain ⟨s, hrun, hs⟩ := Option.map_eq_some_iff.mp hend
  obtain ⟨hphase, hreports, howner⟩ : s.server.phase = .running ∧
      s.reports = [terminationReport 0 0] ∧ s.kernel.owner 0 = some maxConcurrency := by
    simpa only [Prod.mk.injEq] using hs
  have hattributed := hall evictingBatch s
    ((run_iff_foldlM (System.step fun _ _ _ => true) _ s _).mpr hrun) hphase 0 _ [] hreports
  have howner' : s.kernel.owner 0 = some 0 := hattributed.2.1
  rw [howner] at howner'
  cases howner'

end X509Server
