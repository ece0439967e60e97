import X509Server.Analysis.AttritionSpec
import X509Server.Analysis.NetworkSpec
import X509Server.Interface.Availability

/-!
# What stops the server, exactly

The event of a connection that the kernel reports is handled without a fault: its slot is in
use, its buffer is there, and it is counted.  It ends the server only through the
authentication (`handleConn_decides`), and that only where half of the keys have expired.
The event of the listening socket finds a connection to give up and a slot, and fails only
with `epoll_ctl`.
-/

set_option autoImplicit false

namespace X509Server

open Checked Runs

/-! ## Events -/

section Events

variable {slot : ℕ} {e : Event} {a : Answers} {r : Resources} {conn : Connection}
  {session : Option Bytes}

/-- The first part of an event of a connection in use. -/
theorem handleReceive_returns (hconn : r.conns[slot]? = some conn)
    (hrepresents : Represents session conn) (hopen : 0 < conn.fd) (htotal : 0 < r.connsTotal) :
    ∃ mid obs conn', handleReceive slot e a r = .ok (mid, obs) ∧
      mid.conns[slot]? = some conn' ∧ mid.toKeyStore = r.toKeyStore ∧
      (0 < conn'.fd → 0 < mid.connsTotal) := by
  have hlt := (List.getElem?_eq_some_iff.mp hconn).1
  unfold handleReceive connAt
  by_cases hin : e.epollin = true
  · obtain ⟨reception, hloop, -⟩ := recvLoop_represents a.recvs hrepresents hopen
    rw [if_pos hin, hconn, ok_bind, hloop, ok_bind]
    dsimp only
    cases reception.dropped with
    | false =>
      rw [if_neg Bool.false_ne_true]
      exact ⟨_, _, _, rfl, List.getElem?_set_self hlt, rfl, fun _ => htotal⟩
    | true =>
      rw [if_pos rfl, freeConn_eq (r := { r with conns := r.conns.set slot reception.conn })
        (List.getElem?_set_self hlt) htotal, ok_bind]
      dsimp only
      rw [List.set_set]
      exact ⟨_, _, _, rfl, List.getElem?_set_self hlt, rfl, fun hfd => absurd hfd (lt_irrefl 0)⟩
  · rw [if_neg hin]
    exact ⟨r, [], conn, rfl, hconn, rfl, fun _ => htotal⟩

/-- The third part of an event of a connection. -/
theorem handleError_returns (hconn : r.conns[slot]? = some conn)
    (htotal : 0 < conn.fd → 0 < r.connsTotal) : ∃ p, handleError slot e r = .ok p := by
  unfold handleError connAt
  rw [hconn, ok_bind]
  by_cases herror : conn.fd > 0 ∧ e.epollerr = true
  · rw [if_pos herror, freeConn_eq hconn (htotal herror.1)]
    exact ⟨_, rfl⟩
  · rw [if_neg herror]
    exact ⟨_, rfl⟩

variable (verify : PubKey → Bytes → Bytes → Bool)

/-- The event of a connection in use returns, unless it makes a decision and the
authentication ends. -/
inductive Decides (e : Event) (a : Answers) (r : Resources) :
    Served (Resources × List Observation) → Prop where
  | undecided (message : decidedMessage e a r = none) (p : Resources × List Observation) :
      Decides e a r (.ok p)
  | decided {message : Bytes} {q : KeyStore × Option Bytes}
      (ended : decidedMessage e a r = some message)
      (auth : authenticate verify a.time message r.toKeyStore = .ok q)
      (p : Resources × List Observation) : Decides e a r (.ok p)
  | stops {message : Bytes} {stop : Stop Exit Fault}
      (ended : decidedMessage e a r = some message)
      (auth : authenticate verify a.time message r.toKeyStore = .error stop) :
      Decides e a r (.error stop)

theorem handleConn_decides (hconn : r.conns[e.data]? = some conn)
    (hrepresents : Represents session conn) (hopen : 0 < conn.fd) (htotal : 0 < r.connsTotal) :
    Decides verify e a r (handleConn verify e.data e a r) := by
  obtain ⟨mid, obs, conn', hreceive, hconn', hkeys, htotal'⟩ :=
    handleReceive_returns (e := e) (a := a) hconn hrepresents hopen htotal
  unfold handleConn connAt
  rw [hconn, ok_bind, assertThat_eq (by simpa using hopen), ok_bind, hreceive, ok_bind]
  dsimp only
  by_cases hended : 0 < conn'.fd ∧ (e.epollrdhup || e.epollhup) = true
  · obtain ⟨hopen', hhup⟩ := hended
    have hmessage : decidedMessage e a r = some conn'.contents := by
      unfold decidedMessage
      rw [hreceive]
      dsimp only
      rw [hconn']
      exact if_pos ⟨hopen', hhup⟩
    rw [handleTermination_eq verify hconn' hopen' hhup (htotal' hopen'), hkeys]
    cases hauth : authenticate verify a.time conn'.contents r.toKeyStore with
    | error stop => exact .stops hmessage hauth
    | ok q =>
      rw [ok_bind, ok_bind]
      dsimp only
      have hlt := (List.getElem?_eq_some_iff.mp hconn').1
      obtain ⟨p, hp⟩ := handleError_returns (e := e)
        (r := { mid with
          toKeyStore := q.1
          scriptN := if q.2.isSome then mid.scriptN + 1 else mid.scriptN
          conns := mid.conns.set e.data { conn' with fd := 0, bufSize := 0, openTime := 0 }
          connsTotal := mid.connsTotal - 1 })
        (List.getElem?_set_self hlt) fun hfd => absurd hfd (lt_irrefl 0)
      rw [hp]
      exact .decided hmessage hauth _
  · have hmessage : decidedMessage e a r = none := by
      unfold decidedMessage
      rw [hreceive]
      dsimp only
      rw [hconn']
      exact if_neg hended
    have htermination : handleTermination verify e.data e a mid = .ok (mid, []) := by
      unfold handleTermination connAt
      rw [hconn', ok_bind]
      exact if_neg hended
    obtain ⟨p, hp⟩ := handleError_returns (e := e) hconn' htotal'
    rw [htermination, ok_bind]
    dsimp only
    rw [hp]
    exact .undecided hmessage _

/-- The event of the listening socket returns, or `epoll_ctl` has failed for an accepted
connection. -/
theorem Tallied.handleAccept_refused (h : Tallied r) (haccepted : 0 < a.accept)
    (hfailed : a.epollCtl = false) : handleAccept a r = .error (.fault .assertFailed) := by
  obtain ⟨r₁, evicted, hevict, h₁, hlt⟩ := h.evict_ok
  obtain ⟨i, conn, hfind, hconn⟩ := h₁.exists_slot hlt
  unfold handleAccept
  rw [hevict, ok_bind]
  dsimp only
  rw [if_neg (by omega)]
  unfold Resources.register connAt
  dsimp only
  rw [hfind]
  dsimp only
  rw [hconn, ok_bind, if_pos hfailed]
  unfold assertThat
  rw [if_neg (by simp; omega)]
  rfl

end Events

/-! ## The authentication -/

/-- The authentication ends the server exactly if nobody has signed the message and half of
the keys have expired. -/
theorem authenticate_error_iff (verify : PubKey → Bytes → Bytes → Bool) {now : ℤ} {buf : Bytes}
    {s : KeyStore} (hpos : 0 < s.keysSize) (hs : s.keysSize ≤ s.keys.length)
    (stop : Stop Exit Fault) :
    authenticate verify now buf s = .error stop ↔ stop = .code (.allCertificatesExpired now) ∧
      ¬ Authentic verify now buf s.loaded ∧ s.keysSize ≤ 2 * expiredCount now s.loaded := by
  constructor
  · intro hstop
    cases stop with
    | fault fault => exact absurd hstop ((authenticate_safe verify hs).ne_fault fault)
    | code reason =>
      obtain ⟨rfl, hhalf⟩ := authenticate_ended verify hpos hs hstop
      refine ⟨rfl, fun hauth => ?_, hhalf⟩
      obtain ⟨s', script, hok⟩ := (authenticate_exact verify hs).mpr hauth
      rw [hstop] at hok
      cases hok
  · rintro ⟨rfl, hnone, hhalf⟩
    have hfate := authenticate_attrition verify s hpos hs hnone
    cases hresult : authenticate verify now buf s with
    | ok p =>
      rw [hresult] at hfate
      obtain ⟨-, hsize, hleft, -, -⟩ := hfate
      omega
    | error stop =>
      rw [hresult] at hfate
      cases stop with
      | fault fault => exact hfate.elim
      | code reason => rw [hfate.1]

/-- The phase in which the handling of an event leaves the server. -/
def phaseBehind {α : Type} : Served α → Phase
  | .ok _ => .running
  | .error (.code reason) => .exited reason
  | .error (.fault fault) => .aborted fault

theorem Server.advance_phase {server : Server} (hrunning : server.phase = .running)
    (events : List Event) (p : Served (Resources × List Observation)) :
    (server.advance events p).phase = phaseBehind p := by
  cases p with
  | ok p => exact hrunning
  | error stop => cases stop <;> rfl

/-- An event of a connection stops the server in one way. -/
theorem Decides.phase_iff {verify : PubKey → Bytes → Bytes → Bool} {e : Event} {a : Answers}
    {r : Resources} {p : Served (Resources × List Observation)} (h : Decides verify e a r p)
    (hpos : 0 < r.keysSize) (hs : r.keysSize ≤ r.keys.length) {phase : Phase}
    (hphase : phase ≠ .running) :
    phaseBehind p = phase ↔ phase = .exited (.allCertificatesExpired a.time) ∧
      ∃ message, decidedMessage e a r = some message ∧
        ¬ Authentic verify a.time message r.loaded ∧
        r.keysSize ≤ 2 * expiredCount a.time r.loaded := by
  cases h with
  | undecided none p =>
    refine iff_of_false hphase.symm ?_
    rintro ⟨-, message, hsome, -⟩
    rw [none] at hsome
    cases hsome
  | decided ended auth p =>
    refine iff_of_false hphase.symm ?_
    rintro ⟨-, message, hsome, hnone⟩
    obtain rfl := Option.some.inj (ended.symm.trans hsome)
    have hstop := (authenticate_error_iff verify hpos hs _).mpr ⟨rfl, hnone⟩
    rw [auth] at hstop
    cases hstop
  | stops ended auth =>
    obtain ⟨rfl, hnone⟩ := (authenticate_error_iff verify hpos hs _).mp auth
    constructor
    · intro hstops
      exact ⟨hstops.symm, _, ended, hnone⟩
    · rintro ⟨rfl, -⟩
      rfl

/-! ## Steps -/

section Steps

variable {verify : PubKey → Bytes → Bytes → Bool} {latest : ℤ} {store : KeyStore} {s t : System}
  {l : SystemLabel}

/-- What the handling of events relies on. -/
structure Available (latest : ℤ) (store : KeyStore) (s : System) : Prop where
  sound : s.Sound
  fitting : Fitting s.server
  tallied : Tallied s.server.resources
  worn : Worn latest store s.server

theorem available_start (hs : store.keysSize ≤ store.keys.length) :
    Available latest store (.start store) where
  sound := System.sound_start store
  fitting := fitting_start store
  tallied := tallied_start store
  worn := Worn.start hs

/-- A report that is handled next is one of the batch. -/
theorem System.mem_of_next {report : Report} (h : s.next = some report) : report ∈ s.reports :=
  List.mem_of_mem_head? h

/-- A report of the listening socket carries its data. -/
theorem System.Sound.listener_data (h : s.Sound) (hrunning : s.server.phase = .running)
    {report : Report} (hmem : report ∈ s.reports) (hlistener : report.origin = .listener) :
    report.event.data = maxInt32 := by
  have hholds := h.holds hrunning report hmem
  unfold Kernel.Holds at hholds
  rwa [hlistener] at hholds

theorem Available.step (h : Available latest store s) (hstep : ServingStep verify s l t) :
    Available latest store t := by
  obtain ⟨hstep, hclock⟩ := hstep
  have hsound := h.sound.step hstep
  refine ⟨hsound, ?_, ?_, ?_⟩
  · rcases hstep.server_step with hserver | ⟨l', hserver⟩
    · rw [hserver]
      exact h.fitting
    · exact h.fitting.step verify hserver
  · by_cases hl : ∀ a survives, l ≠ .handle a survives
    · rw [(hstep.idle hl).resources]
      exact h.tallied
    · simp only [not_forall, not_not] at hl
      obtain ⟨a, survives, rfl⟩ := hl
      obtain ⟨report, reports, hreports, -, hserver, -⟩ := h.sound.handle_advance hstep
      obtain ⟨-, hlistens⟩ := hstep.2 a survives rfl
      have hnext : s.next = some report := by
        unfold System.next
        rw [hreports]
        rfl
      rw [hserver]
      cases hevent : handleEvent verify report.event a s.server.resources with
      | ok p =>
        exact h.tallied.handleEvent
          (fun hlistener => (hlistens report reports hreports hlistener).1)
          (fun hlistener haccepted => hclock a survives rfl ⟨report, hnext, hlistener, haccepted⟩)
          hevent
      | error stop => cases stop <;> exact h.tallied
  · rcases hstep.server_step with hserver | ⟨l', hserver⟩
    · rw [hserver]
      exact h.worn
    · exact h.worn.step hserver

/-- The next report of a connection is about one in use, with its buffer, and counted. -/
theorem Available.inUse (h : Available latest store s) (hrunning : s.server.phase = .running)
    {report : Report} (hmem : report ∈ s.reports) {id : ℕ}
    (hconnection : report.origin = .connection id) :
    report.event.data < maxConcurrency ∧
      ∃ conn, s.server.resources.conns[report.event.data]? = some conn ∧ 0 < conn.fd ∧
        Represents (received report.event.data s.server.log) conn ∧
        0 < s.server.resources.connsTotal := by
  have hholds := h.sound.holds hrunning report hmem
  unfold Kernel.Holds at hholds
  rw [hconnection] at hholds
  obtain ⟨conn, hconn, hopen⟩ := h.sound.inUse hholds
  have hpos : 0 < openCount s.server.resources.conns :=
    List.countP_pos_iff.mpr ⟨conn, List.mem_of_getElem? hconn, by simpa using hopen⟩
  refine ⟨h.sound.kernel.inRange _ id hholds, conn, hconn, hopen, ?_, ?_⟩
  · exact (h.fitting.fits _ conn hconn).represents
      (h.fitting.sized conn (List.mem_of_getElem? hconn))
  · rw [h.tallied.total]
    exact hpos

/-- The phase behind the next report, where the server stops. -/
theorem Available.handleEvent_iff (h : Available latest store s)
    (hrunning : s.server.phase = .running) {a : Answers} (survives : Bool) {report : Report}
    {reports : List Report} (hreports : s.reports = report :: reports) {phase : Phase}
    (hphase : phase ≠ .running) :
    phaseBehind (handleEvent verify report.event a s.server.resources) = phase ↔
      s.Stops verify (.handle a survives) phase := by
  have hnext : s.next = some report := by
    unfold System.next
    rw [hreports]
    rfl
  have hmem : report ∈ s.reports := by
    rw [hreports]
    exact List.mem_cons_self
  cases horigin : report.origin with
  | listener =>
    have hdata := h.sound.listener_data hrunning hmem horigin
    unfold handleEvent
    rw [if_pos hdata]
    constructor
    · intro hstops
      by_cases hregistered : 0 < a.accept → a.epollCtl = true
      · obtain ⟨r, obs, hok⟩ := (h.tallied.handleAccept_iff a).mpr hregistered
        rw [hok] at hstops
        exact absurd hstops.symm hphase
      · simp only [Classical.not_imp, Bool.not_eq_true] at hregistered
        rw [h.tallied.handleAccept_refused hregistered.1 hregistered.2] at hstops
        obtain rfl := hstops.symm
        exact .unregistered hnext horigin hregistered.1 hregistered.2
    · intro hstops
      cases hstops with
      | unregistered next listener accepted failed =>
        rw [h.tallied.handleAccept_refused accepted failed]
        rfl
      | expired next connection ended unsigned half =>
        obtain rfl := Option.some.inj (hnext.symm.trans next)
        rw [horigin] at connection
        cases connection
  | connection id =>
    obtain ⟨hslot, conn, hconn, hopen, hrepresents, htotal⟩ := h.inUse hrunning hmem horigin
    have hdecides := handleConn_decides verify (a := a) hconn hrepresents hopen htotal
    rw [handleEvent_conn hslot, hdecides.phase_iff (h.worn.pos hrunning) h.worn.size_le hphase]
    constructor
    · rintro ⟨rfl, message, ended, unsigned, half⟩
      exact .expired hnext horigin ended unsigned half
    · intro hstops
      cases hstops with
      | unregistered next listener accepted failed =>
        obtain rfl := Option.some.inj (hnext.symm.trans next)
        rw [horigin] at listener
        cases listener
      | expired next connection ended unsigned half =>
        obtain rfl := Option.some.inj (hnext.symm.trans next)
        exact ⟨rfl, _, ended, unsigned, half⟩

/-- A step stops the server for the reasons there are. -/
theorem Available.stops_iff (h : Available latest store s) (hstep : ServingStep verify s l t)
    (hrunning : s.server.phase = .running) {phase : Phase} (hphase : phase ≠ .running) :
    t.server.phase = phase ↔ s.Stops verify l phase := by
  obtain ⟨hstep, -⟩ := hstep
  cases l with
  | handle a survives =>
    obtain ⟨report, reports, hreports, -, hserver, -⟩ := h.sound.handle_advance hstep
    rw [hserver, Server.advance_phase hrunning]
    exact h.handleEvent_iff hrunning survives hreports hphase
  | waitFailed =>
    have hstopped : t.server.phase = .exited .epollWaitFailed := by
      obtain ⟨server, hserver, rfl⟩ := Option.map_eq_some_iff.mp hstep.1
      rcases Server.step_cases verify hserver with ⟨-, rfl⟩ | ⟨events, hl, -⟩ |
        ⟨a, e, events, hl, -⟩
      · rfl
      · cases hl
      · cases hl
    rw [hstopped]
    constructor
    · rintro rfl
      exact .waitFailed
    · intro hstops
      cases hstops
      rfl
  | wait reports =>
    have hrunning' : t.server.phase = .running := by
      have hstep := hstep.1
      simp only [System.step] at hstep
      split at hstep
      · obtain ⟨server, hserver, rfl⟩ := Option.map_eq_some_iff.mp hstep
        rcases Server.step_cases verify hserver with ⟨hl, -⟩ | ⟨events, -, -, -, rfl⟩ |
          ⟨a, e, events, hl, -⟩
        · cases hl
        · exact hrunning
        · cases hl
      · cases hstep
    rw [hrunning']
    exact iff_of_false hphase.symm fun hstops => by cases hstops
  | release id =>
    obtain rfl := Option.some.inj hstep.1
    exact iff_of_false (fun heq => hphase (heq.symm.trans hrunning)) fun hstops => by cases hstops

/-- The times that are read while an event is handled. -/
theorem handleEvent_times {e : Event} {a : Answers} {r r' : Resources} {obs : List Observation}
    (hevent : handleEvent verify e a r = .ok (r', obs)) : ∀ t ∈ timesRead obs, t = a.time := by
  obtain ⟨-, -, houtcome⟩ := (handleEvent_yields verify a e r).of_ok hevent
  cases houtcome with
  | transported ht =>
    rw [timesRead_silent ht.silent]
    intro t ht
    cases ht
  | decided hdecision hauth hobs hsilent =>
    dsimp only at hobs
    rw [hobs, timesRead_append, timesRead_append, timesRead_silent hdecision.transported.silent,
      timesRead_decisionLog, timesRead_silent hsilent]
    simp

/-- The server is running, and has read no time behind `latest`. -/
structure Upheld (latest : ℤ) (store : KeyStore) (s : System) : Prop where
  available : Available latest store s
  times : ∀ t ∈ timesRead s.server.log, t ≤ latest
  running : s.server.phase = .running

theorem Upheld.step (h : Upheld latest store s)
    (hvalid : 2 * expiredCount latest store.loaded < store.keysSize)
    (hstep : UndisturbedStep verify latest s l t) : Upheld latest store t := by
  obtain ⟨hserving, hwaits, hanswers⟩ := hstep
  refine ⟨h.available.step hserving, ?_, ?_⟩
  · by_cases hl : ∀ a survives, l ≠ .handle a survives
    · rw [(hserving.1.idle hl).log]
      exact h.times
    · simp only [not_forall, not_not] at hl
      obtain ⟨a, survives, rfl⟩ := hl
      obtain ⟨report, reports, -, -, hserver, -⟩ := h.available.sound.handle_advance hserving.1
      rw [hserver]
      cases hevent : handleEvent verify report.event a s.server.resources with
      | error stop => cases stop <;> exact h.times
      | ok p =>
        intro time htime
        change time ∈ timesRead (s.server.log ++ p.2) at htime
        rw [timesRead_append, List.mem_append] at htime
        rcases htime with hbefore | hnow
        · exact h.times time hbefore
        · rw [handleEvent_times hevent time hnow]
          exact (hanswers a survives rfl).2
  · by_contra hstopped
    have hstops := (h.available.stops_iff hserving h.running hstopped).mp rfl
    generalize t.server.phase = phase at hstops
    cases hstops with
    | waitFailed => exact hwaits rfl
    | @unregistered a survives report next listener accepted failed =>
      have hdata := h.available.sound.listener_data h.running (System.mem_of_next next) listener
      have hregistered := (hanswers a survives rfl).1 ⟨report, next, hdata, accepted⟩
      rw [failed] at hregistered
      cases hregistered
    | @expired a survives report id message next connection ended unsigned half =>
      have hmono := expiredCount_mono (hanswers a survives rfl).2 s.server.resources.loaded
      have hwears := h.available.worn.wears h.times
      unfold Wears at hwears
      omega

end Steps

/-! ## Runs -/

/-- In every state of a run of serving steps, such a step ends the server exactly for the three
reasons: `epoll_wait` fails, `epoll_ctl` fails for an accepted connection, or a connection
ends without a script that a valid key accepts when half of the keys in use have expired. -/
theorem server_stops_iff (verify : PubKey → Bytes → Bytes → Bool) (store : KeyStore)
    (labels : List SystemLabel) (s : System) (hs : store.keysSize ≤ store.keys.length)
    (hrun : Run (ServingStep verify) (System.start store) labels s) (l : SystemLabel)
    (t : System) (hstep : ServingStep verify s l t) (hrunning : s.server.phase = .running)
    (phase : Phase) (hphase : phase ≠ .running) :
    t.server.phase = phase ↔ s.Stops verify l phase := by
  have havailable : Available 0 store s :=
    hrun.invariant (fun s l t h hstep => h.step hstep) (available_start hs)
  exact havailable.stops_iff hstep hrunning hphase

/-- A step with the only report of a batch, in which nothing fails. -/
theorem undisturbed_quiet {verify : PubKey → Bytes → Bytes → Bool} {s t : System}
    {report : Report} {time : ℤ} (hreports : s.reports = [report])
    (hstep : s.step verify (.handle (quietAnswers time) false) = some t) :
    UndisturbedStep verify time s (.handle (quietAnswers time) false) t := by
  have haccept : (quietAnswers time).accept ≠ 0 := show (5 : ℤ) ≠ 0 by decide
  refine ⟨⟨attributingStep_only hreports haccept hstep, ?_⟩, by simp, ?_⟩
  · rintro a survives ⟨⟩ _
    exact show (0 : ℤ) < maxInt64 by decide
  · rintro a survives ⟨⟩
    exact ⟨fun _ => rfl, le_refl time⟩

theorem undisturbed_wait {verify : PubKey → Bytes → Bytes → Bool} {s t : System}
    {reports : List Report} {time : ℤ} (hstep : s.step verify (.wait reports) = some t) :
    UndisturbedStep verify time s (.wait reports) t := by
  refine ⟨⟨attributingStep_wait hstep, ?_⟩, by simp, ?_⟩
  · rintro a survives ⟨⟩
  · rintro a survives ⟨⟩

/-- A connection arrives and ends without having sent anything. -/
def silentSession (time : ℤ) : List SystemLabel :=
  [.wait [listenerReport], .handle (quietAnswers time) false, .wait [terminationReport 0 0]]

/-- With two keys, one of which has expired, the connection stops the server. -/
theorem server_stops_iff_silent :
    ∃ s t : System, t.server.phase = .exited (.allCertificatesExpired 1) ∧
      (t.server.phase = .exited (.allCertificatesExpired 1) ↔
        s.Stops (fun _ _ _ => true) (.handle (quietAnswers 1) false)
          (.exited (.allCertificatesExpired 1))) := by
  have hsession : ∃ s t, Run (UndisturbedStep (fun _ _ _ => true) 1)
      (System.start (keysUntil [0, 2])) (silentSession 1) s ∧
      s.server.phase = .running ∧ t.server.phase = .exited (.allCertificatesExpired 1) ∧
      UndisturbedStep (fun _ _ _ => true) 1 s (.handle (quietAnswers 1) false) t := by
    exact ⟨_, _, .cons (undisturbed_wait rfl) (.cons (undisturbed_quiet rfl rfl)
      (.cons (undisturbed_wait rfl) (.nil _))), rfl, rfl, undisturbed_quiet rfl rfl⟩
  obtain ⟨s, t, hrun, hrunning, hphase, hstep⟩ := hsession
  exact ⟨s, t, hphase, server_stops_iff _ _ _ s (by decide) (hrun.mono fun _ _ _ h => h.1) _ t
    hstep.1 hrunning _ (by simp)⟩

end X509Server
