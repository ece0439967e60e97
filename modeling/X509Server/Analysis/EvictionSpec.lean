import X509Server.Analysis.CountSpec
import X509Server.Interface.Eviction

/-!
# Eviction

One touch after the other, the table keeps the order of acceptance: the times of the
connections in use ascend along the queue (`OrderKept.touch`).  A handled event is a row of
touches (`Handled.run`), so the order holds in every state of a run.  The scan for the oldest
connection then differs from the queue only where two connections show the same time.
-/

set_option autoImplicit false

namespace X509Server

open Checked Queues Runs

/-! ## A handled event, touch by touch -/

/-- One connection of the table is touched. -/
def TouchAt (a : Answers) (conns : List Connection) (o : Observation)
    (conns' : List Connection) : Prop :=
  ∃ conn conn', conns[o.slot]? = some conn ∧ Touch a conn o conn' ∧
    conns' = conns.set o.slot conn'

/-- What happens to each connection by itself happens to the table in one order. -/
theorem touches_run {a : Answers} {conns conns' : List Connection} {obs : List Observation}
    (hlength : conns'.length = conns.length) (hrange : ∀ o ∈ obs, o.slot < conns.length)
    (htouches : ∀ i conn, conns[i]? = some conn → ∃ conn', conns'[i]? = some conn' ∧
      Run (Touch a) conn (obs.filter fun o => o.slot = i) conn') :
    Run (TouchAt a) conns obs conns' := by
  induction obs generalizing conns with
  | nil =>
    have hsame : conns' = conns := by
      apply List.ext_getElem hlength
      intro i hi' hi
      obtain ⟨conn', hconn', hrun⟩ := htouches i _ (List.getElem?_eq_getElem hi)
      cases hrun
      rw [List.getElem?_eq_getElem hi'] at hconn'
      exact Option.some.inj hconn'
    rw [hsame]
    exact .nil conns
  | cons o obs ih =>
    have hlt : o.slot < conns.length := hrange o (by simp)
    have hconn := List.getElem?_eq_getElem hlt
    obtain ⟨conn', hconn', hrun⟩ := htouches o.slot _ hconn
    rw [List.filter_cons_of_pos (by simp)] at hrun
    cases hrun with
    | @cons _ mid _ _ _ head tail =>
      apply Run.cons (t := conns.set o.slot mid) ⟨_, mid, hconn, head, rfl⟩
      apply ih
      · rw [hlength, List.length_set]
      · intro o' ho'
        rw [List.length_set]
        exact hrange o' (List.mem_cons_of_mem _ ho')
      · intro i conn hi
        by_cases heq : i = o.slot
        · subst heq
          rw [List.getElem?_set_self hlt] at hi
          obtain rfl := Option.some.inj hi
          exact ⟨conn', hconn', tail⟩
        · rw [List.getElem?_set_ne (Ne.symm heq)] at hi
          obtain ⟨next, hnext, hrun⟩ := htouches i conn hi
          rw [List.filter_cons_of_neg (by simpa using Ne.symm heq)] at hrun
          exact ⟨next, hnext, hrun⟩

theorem Handled.run {a : Answers} {conns conns' : List Connection} {obs : List Observation}
    (h : Handled a conns conns' obs) : Run (TouchAt a) conns obs conns' :=
  touches_run h.length_eq h.inRange h.touches

/-! ## The order of acceptance -/

theorem stamps_set {conns : List Connection} {i : ℕ} (hi : i < conns.length)
    (conn : Connection) :
    stamps (conns.set i conn) = Function.update (stamps conns) i conn.stamp := by
  funext j
  unfold stamps
  by_cases hj : j = i
  · subst hj
    rw [Function.update_self, List.getElem?_set_self hi]
    rfl
  · rw [Function.update_of_ne hj, List.getElem?_set_ne (Ne.symm hj)]

theorem stamps_eq_some {conns : List Connection} {i : ℕ} {time : ℤ} :
    stamps conns i = some time ↔
      ∃ conn, conns[i]? = some conn ∧ 0 < conn.fd ∧ conn.openTime = time := by
  simp [stamps, Connection.stamp, Option.bind_eq_some_iff]

theorem Connection.store_stamp (conn : Connection) (chunk : Bytes) :
    (conn.store chunk).stamp = conn.stamp := by
  unfold Connection.store Connection.grow
  split
  · rfl
  · split <;> rfl

/-- A new connection shows the time of its acceptance, or has no descriptor. -/
theorem Connection.attach_stamp (conn : Connection) (a : Answers) {time : ℤ}
    (h : (conn.attach a).stamp = some time) : time = a.clock := by
  unfold Connection.stamp at h
  split at h
  · rw [← Option.some.inj h]
    unfold Connection.attach
    cases conn.buf <;> rfl
  · cases h

/-- The times ascend along the queue, and none of them is later than `now`. -/
structure OrderKept (queue : List ℕ) (conns : List Connection) (now : ℤ) : Prop where
  stamped : Stamped (stamps conns) queue
  until_now : Until (stamps conns) now

theorem OrderKept.later {queue : List ℕ} {conns : List Connection} {now later : ℤ}
    (h : OrderKept queue conns now) (hle : now ≤ later) : OrderKept queue conns later :=
  ⟨h.stamped, fun i time htime => le_trans (h.until_now i time htime) hle⟩

/-- A touch keeps the order of acceptance. -/
theorem OrderKept.touch {a : Answers} {queue : List ℕ} {conns conns' : List Connection}
    {o : Observation} (h : OrderKept queue conns a.clock) (htouch : TouchAt a conns o conns') :
    OrderKept (enqueue queue o) conns' a.clock := by
  obtain ⟨conn, conn', hconn, htouch, rfl⟩ := htouch
  have hlt : o.slot < conns.length := (List.getElem?_eq_some_iff.mp hconn).1
  -- a touch that leaves the time of the connection leaves all times
  have hsame : conn'.stamp = conn.stamp →
      OrderKept queue (conns.set o.slot conn') a.clock := by
    intro hstamp
    have hstamps : stamps (conns.set o.slot conn') = stamps conns := by
      rw [stamps_set hlt, hstamp]
      apply Function.update_eq_self_iff.mpr
      simp [stamps, hconn]
    exact ⟨hstamps ▸ h.stamped, hstamps ▸ h.until_now⟩
  cases htouch with
  | opened slot unused accepted =>
    constructor
    · rw [stamps_set hlt]
      apply h.stamped.arrive
      intro time htime
      rw [conn.attach_stamp a htime]
      exact h.until_now
    · rw [stamps_set hlt]
      apply h.until_now.update
      intro time htime
      exact le_of_eq (conn.attach_stamp a htime)
  | received slot chunk inUse allocated room => exact hsame (conn.store_stamp chunk)
  | terminated slot inUse => exact hsame rfl
  | executed slot script n inUse => exact hsame rfl
  | closed slot inUse =>
    constructor
    · rw [stamps_set hlt]
      exact h.stamped.leave slot
    · rw [stamps_set hlt]
      apply h.until_now.update
      intro time htime
      simp [Connection.stamp] at htime

theorem OrderKept.run {a : Answers} {queue : List ℕ} {conns conns' : List Connection}
    {obs : List Observation} (h : OrderKept queue conns a.clock)
    (hrun : Run (TouchAt a) conns obs conns') :
    OrderKept (obs.foldl enqueue queue) conns' a.clock := by
  induction hrun generalizing queue with
  | nil conns => exact h
  | cons head tail ih => exact ih (h.touch head)

/-- In a run along which the clock does not go back, the order is kept. -/
theorem stamped_run {verify : PubKey → Bytes → Bytes → Bool} {s t : Server}
    {labels : List Label} (h : Stamped (stamps s.resources.conns) (acceptanceOrder s.log))
    (hnow : ∀ now ∈ labels.filterMap Label.clock, Until (stamps s.resources.conns) now)
    (hclock : ClockAscends labels)
    (hrun : Run (fun s l t => s.step verify l = some t) s labels t) :
    Stamped (stamps t.resources.conns) (acceptanceOrder t.log) := by
  induction hrun with
  | nil s => exact h
  | @cons s _ _ l labels head tail ih =>
    rcases Server.step_cases verify head with ⟨rfl, rfl⟩ | ⟨events, rfl, -, -, rfl⟩ |
      ⟨a, e, events, rfl, -, -, rfl⟩
    · exact ih h hnow hclock
    · exact ih h hnow hclock
    · obtain ⟨hlater, hrest⟩ := List.pairwise_cons.mp hclock
      have hstart : OrderKept (acceptanceOrder s.log) s.resources.conns a.clock :=
        ⟨h, hnow a.clock (List.mem_cons_self ..)⟩
      cases hevent : handleEvent verify e a s.resources with
      | ok p =>
        obtain ⟨r, obs⟩ := p
        obtain ⟨hhandled, -, -⟩ := (handleEvent_yields verify a e s.resources).of_ok hevent
        have hend := hstart.run hhandled.run
        rw [acceptanceOrder, ← List.foldl_append, ← acceptanceOrder] at hend
        rw [hevent] at ih
        apply ih hend.stamped _ hrest
        intro now hnow
        exact (hend.later (hlater now hnow)).until_now
      | error stop =>
        rw [hevent] at ih
        have hsame : ∀ now ∈ labels.filterMap Label.clock, Until (stamps s.resources.conns) now :=
          fun now hmem => (hstart.later (hlater now hmem)).until_now
        cases stop with
        | code reason => exact ih h hsame hrest
        | fault fault => exact ih h hsame hrest

theorem stamps_start (store : KeyStore) :
    stamps (Server.start store).resources.conns = fun _ => none := by
  funext i
  apply Option.eq_none_iff_forall_ne_some.mpr
  intro time htime
  obtain ⟨conn, hconn, hopen, -⟩ := stamps_eq_some.mp htime
  have hmem := List.mem_of_getElem? hconn
  obtain rfl := List.eq_of_mem_replicate hmem
  exact absurd hopen (by simp)

/-! ## What is closed -/

variable {E : Exit → Prop}

theorem evict_closed (r : Resources) :
    Yields r.evict (fun p => ∀ i, .closed i ∈ p.2 ↔ r.Evicts i) E := by
  unfold Resources.evict Resources.Evicts
  apply Yields.ite
  · intro hfull
    cases hold : oldest r.conns with
    | none => trivial
    | some k =>
      obtain ⟨conn, holdest⟩ := oldest_spec hold
      apply (freeConn_self holdest.conn_eq).mono _ fun _ => id
      rintro _ ⟨total, -, rfl⟩ i
      simp [hfull, eq_comm]
  · intro hspare i
    simp [hspare]

theorem register_closed (r : Resources) (a : Answers) :
    Yields (r.register a) (fun p => ∀ i, .closed i ∉ p.2) E := by
  unfold Resources.register
  dsimp only
  split
  · exact (assertThat_yields _).bind fun _ _ => by simp
  · apply (connAt_yields _ _).bind
    intro conn _
    apply Yields.ite
    · exact fun _ => (assertThat_yields _).bind fun _ _ => by simp
    · intro _
      simp

/-- An event of the listening socket closes what a full table gives up, and nothing else. -/
theorem handleAccept_closed (a : Answers) (r : Resources) :
    Yields (handleAccept a r) (fun p => ∀ i, .closed i ∈ p.2 ↔ r.Evicts i) E := by
  unfold handleAccept
  apply (evict_closed r).bind
  rintro ⟨r₁, evicted⟩ hevicted
  apply Yields.ite
  · exact fun _ => hevicted
  · intro _
    apply (register_closed r₁ a).bind
    rintro ⟨r₂, opened⟩ hopened i
    simp [hevicted i, hopened i]

/-- A full table with a connection to give up is evicted even if `accept` fails then. -/
theorem handleAccept_refuses {r : Resources} {k : ℕ} (hfull : r.connsTotal ≥ maxConcurrency)
    (hold : oldest r.conns = some k) {a : Answers} (ha : a.accept < 0) :
    ∃ r', handleAccept a r = .ok (r', [.closed k]) := by
  obtain ⟨conn, holdest⟩ := oldest_spec hold
  have hone : 1 ≤ r.connsTotal := le_trans (by decide) hfull
  unfold handleAccept Resources.evict
  rw [if_pos hfull, hold]
  dsimp only
  rw [freeConn_eq holdest.conn_eq hone, ok_bind]
  dsimp only
  rw [if_pos ha]
  exact ⟨_, rfl⟩

/-! ## The oldest connection -/

section Order

variable {verify : PubKey → Bytes → Bytes → Bool} {s : Server}

theorem IsOldest.stamp {conns : List Connection} {i : ℕ} {conn : Connection}
    (h : IsOldest conns i conn) : stamps conns i = some conn.openTime :=
  stamps_eq_some.mpr ⟨conn, h.conn_eq, h.inUse, rfl⟩

/-- The scan prefers an earlier time, and of equal times the lower slot. -/
theorem IsOldest.before {conns : List Connection} {i j : ℕ} {conn : Connection}
    (h : IsOldest conns i conn) {time : ℤ} (hj : stamps conns j = some time) :
    conn.openTime ≤ time ∧ (j < i → conn.openTime < time) := by
  obtain ⟨conn', hconn', hopen, rfl⟩ := stamps_eq_some.mp hj
  exact h.earliest j conn' hconn' hopen

/-- Without a tie the scan finds the head of the queue. -/
theorem head_of_untied (h : Stamped (stamps s.resources.conns) (acceptanceOrder s.log))
    (huntied : s.Untied) {i : ℕ} (hevicts : s.resources.Evicts i) :
    s.acceptedFirst.head? = some i := by
  obtain ⟨hfull, hold⟩ := hevicts
  obtain ⟨conn, holdest, hlt⟩ := oldest_timed hold
  have hmem : i ∈ s.acceptedFirst := by
    apply List.mem_filter.mpr
    exact ⟨h.mem i (by simp [holdest.stamp]), by simp [holdest.stamp]⟩
  cases hqueue : s.acceptedFirst with
  | nil =>
    rw [hqueue] at hmem
    cases hmem
  | cons first later =>
    have hfirst : first ∈ s.acceptedFirst := by simp [hqueue]
    obtain ⟨time, htime⟩ := Option.isSome_iff_exists.mp (List.mem_filter.mp hfirst).2
    rcases h.first hqueue htime holdest.stamp with heq | ⟨hlater, hle⟩
    · rw [heq]
      rfl
    · -- both are the oldest: the queue has `first` in front, the scan `i`
      obtain ⟨hge, hslot⟩ := holdest.before htime
      have hsame : conn.openTime = time := by omega
      rcases Nat.lt_trichotomy i first with hbelow | heq | habove
      · exfalso
        rw [hsame] at hlt
        apply huntied hfull first later time hqueue htime hlt i hlater hbelow
        rw [holdest.stamp, hsame]
      · rw [heq]
        rfl
      · have := hslot habove
        omega

/-- A tie below the head of the queue hides it from the scan. -/
theorem untied_of_evictsEarliest (hevicts : s.EvictsEarliest verify) : s.Untied := by
  intro hfull i later time hqueue htime hlt j _ hji htie
  obtain ⟨conn, hconn, hopen, htimed⟩ := stamps_eq_some.mp htime
  obtain ⟨k, hold⟩ :=
    exists_oldest (List.mem_of_getElem? hconn) hopen (by rw [htimed]; exact hlt)
  let a : Answers := ⟨-1, true, 0, fun _ => 0, [], 0⟩
  obtain ⟨r', haccept⟩ := handleAccept_refuses (a := a) hfull hold (by decide)
  have hevent : handleEvent verify ⟨maxInt32, true, false, false, false⟩ a s.resources =
      .ok (r', [.closed k]) := by
    unfold handleEvent
    rw [if_pos rfl, haccept]
  have hhead := (hevicts _ a r' _ rfl hevent).2 k (by simp)
  rw [hqueue] at hhead
  obtain rfl : i = k := Option.some.inj hhead
  obtain ⟨conn', holdest⟩ := oldest_spec hold
  have hself := (holdest.before htime).1
  have hbelow := (holdest.before htie).2 hji
  have hsame : conn'.openTime = time := by
    have hstamp := holdest.stamp
    rw [htime] at hstamp
    exact (Option.some.inj hstamp).symm
  omega

theorem evictsEarliest_iff
    (h : Stamped (stamps s.resources.conns) (acceptanceOrder s.log)) :
    s.EvictsEarliest verify ↔ s.Untied := by
  constructor
  · exact untied_of_evictsEarliest
  · intro huntied e a r obs hlistener hevent
    unfold handleEvent at hevent
    rw [if_pos hlistener] at hevent
    have hclosed := (handleAccept_closed (E := fun _ => False) a s.resources).of_ok hevent
    constructor
    · intro hfull
      cases hold : oldest s.resources.conns with
      | some k => exact ⟨k, (hclosed k).mpr ⟨hfull, hold⟩⟩
      | none =>
        unfold handleAccept Resources.evict at hevent
        rw [if_pos hfull, hold] at hevent
        cases hevent
    · intro i hi
      exact head_of_untied h huntied ((hclosed i).mp hi)

end Order

/-- In every state of a run along which the clock does not go back, a full table gives up the
connection accepted earliest exactly if no open connection in a lower slot shows the same
time. -/
theorem eviction_in_order_iff (verify : PubKey → Bytes → Bytes → Bool) (store : KeyStore)
    (labels : List Label) (s : Server) (hclock : ClockAscends labels)
    (hrun : Run (fun s l t => s.step verify l = some t) (Server.start store) labels s) :
    s.EvictsEarliest verify ↔ s.Untied := by
  apply evictsEarliest_iff
  have hstart := stamps_start store
  apply stamped_run _ _ hclock hrun
  · rw [hstart]
    exact Stamped.nil
  · rw [hstart]
    intro now _ i time htime
    cases htime

/-! ## Examples -/

def arrivalEvent : Event := ⟨maxInt32, true, false, false, false⟩

/-- A connection is accepted at this time. -/
def acceptAt (clock : ℤ) : List Label :=
  [.wait [arrivalEvent], .handle { quietAnswers 0 with clock }]

/-- A table is filled, the connection in slot 0 fails, and a new one gets its slot. -/
def slotReused (clock : ℕ → ℤ) : List Label :=
  ((List.range maxConcurrency).flatMap fun n => acceptAt (clock n)) ++
    [.wait [⟨0, false, false, false, true⟩],
      .handle { quietAnswers 0 with clock := clock maxConcurrency }] ++
    acceptAt (clock maxConcurrency)

/-- At different times the connection in slot 1 is the oldest one then. -/
theorem eviction_in_order_iff_reused :
    ∃ s : Server, s.resources.connsTotal ≥ maxConcurrency ∧ s.acceptedFirst.head? = some 1 ∧
      s.EvictsEarliest fun _ _ _ => true := by
  have hend : ((slotReused fun n => n).foldlM (Server.step fun _ _ _ => true)
      (Server.start (keysUntil [1]))).map (fun s => (s.resources.connsTotal,
        s.acceptedFirst.head?, stamps s.resources.conns 0, stamps s.resources.conns 1)) =
      some (maxConcurrency, some 1, some 128, some 1) := by
    decide +kernel
  obtain ⟨s, hrun, hs⟩ := Option.map_eq_some_iff.mp hend
  obtain ⟨htotal, hhead, hstamp₀, hstamp₁⟩ : s.resources.connsTotal = maxConcurrency ∧
      s.acceptedFirst.head? = some 1 ∧ stamps s.resources.conns 0 = some 128 ∧
        stamps s.resources.conns 1 = some 1 := by
    simpa only [Prod.mk.injEq] using hs
  refine ⟨s, le_of_eq htotal.symm, hhead, ?_⟩
  apply (eviction_in_order_iff _ (keysUntil [1]) (slotReused fun n => n) s _ _).mpr
  · intro _ i later time hqueue htime _ j _ hji
    rw [hqueue] at hhead
    obtain rfl : i = 1 := Option.some.inj hhead
    obtain rfl : j = 0 := by omega
    rw [hstamp₁] at htime
    rw [hstamp₀, ← htime]
    decide
  · unfold ClockAscends
    decide +kernel
  · exact (run_iff_foldlM (Server.step fun _ _ _ => true) _ s _).mpr hrun

/-- Within one tick the connection in slot 0 is given up, although the one in slot 1 was
accepted before it. -/
theorem tied_connection_evicted :
    ¬ ∀ (labels : List Label) (s : Server), ClockAscends labels →
      Run (fun s l t => s.step (fun _ _ _ => true) l = some t) (Server.start (keysUntil [1]))
        labels s → s.EvictsEarliest fun _ _ _ => true := by
  intro hall
  have hend : ((slotReused fun _ => 0).foldlM (Server.step fun _ _ _ => true)
      (Server.start (keysUntil [1]))).map (fun s => (s.acceptedFirst.head?,
        (handleEvent (fun _ _ _ => true) arrivalEvent (quietAnswers 0) s.resources).toOption.map
          Prod.snd)) =
      some (some 1, some [.closed 0, .opened 0]) := by
    decide +kernel
  obtain ⟨s, hrun, hs⟩ := Option.map_eq_some_iff.mp hend
  obtain ⟨hhead, hevent⟩ : s.acceptedFirst.head? = some 1 ∧
      (handleEvent (fun _ _ _ => true) arrivalEvent (quietAnswers 0) s.resources).toOption.map
        Prod.snd = some [.closed 0, .opened 0] := by
    simpa only [Prod.mk.injEq] using hs
  have hclock : ClockAscends (slotReused fun _ => 0) := by
    unfold ClockAscends
    decide +kernel
  have hevicts := hall _ s hclock
    ((run_iff_foldlM (Server.step fun _ _ _ => true) _ s _).mpr hrun)
  obtain ⟨⟨r, obs⟩, hok, rfl⟩ := Option.map_eq_some_iff.mp hevent
  cases hresult : handleEvent (fun _ _ _ => true) arrivalEvent (quietAnswers 0) s.resources with
  | error stop =>
    rw [hresult] at hok
    cases hok
  | ok p =>
    rw [hresult] at hok
    obtain rfl := Option.some.inj hok
    have hclosed := (hevicts arrivalEvent (quietAnswers 0) r _ rfl hresult).2 0 (by simp)
    rw [hhead] at hclosed
    cases hclosed

end X509Server
