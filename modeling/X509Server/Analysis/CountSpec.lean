import X509Server.Analysis.ExpirySpec
import X509Server.Analysis.TrackSpec
import X509Server.Interface.Counts

/-!
# The connection count

`conns_total` and the number of slots in use change with the same observations, so they are
equal as long as a connection that is counted is also opened.  Then a full table has a
connection to give up, and a table that is not full a slot for a new one.
-/

set_option autoImplicit false

namespace X509Server

open Checked Runs

/-- The count is right, the table has its size, and the connections in use were opened at a
time below the maximum. -/
structure Tallied (r : Resources) : Prop where
  total : r.connsTotal = openCount r.conns
  length_eq : r.conns.length = maxConcurrency
  timed : ∀ conn ∈ r.conns, 0 < conn.fd → conn.openTime < maxInt64

theorem openCount_le (conns : List Connection) : openCount conns ≤ conns.length :=
  List.countP_le_length

theorem Tallied.bounded {r : Resources} (h : Tallied r) : r.connsTotal ≤ maxConcurrency := by
  rw [h.total, ← h.length_eq]
  exact openCount_le r.conns

/-- A touch leaves the time of a connection in use, or sets it. -/
theorem Touch.timed {a : Answers} (ha : a.accept ≠ 0)
    (hclock : 0 < a.accept → a.clock < maxInt64) {conn conn' : Connection} {o : Observation}
    (h : 0 < conn.fd → conn.openTime < maxInt64) (htouch : Touch a conn o conn') :
    0 < conn'.fd → conn'.openTime < maxInt64 := by
  intro hopen
  cases htouch with
  | opened slot unused accepted =>
    have hpos : 0 < a.accept := by omega
    unfold Connection.attach
    cases conn.buf <;> exact hclock hpos
  | received slot chunk inUse allocated room =>
    have htime : (conn.store chunk).openTime = conn.openTime := by
      unfold Connection.store Connection.grow
      split
      · rfl
      · split <;> rfl
    rw [htime]
    exact h inUse
  | terminated slot inUse => exact h inUse
  | executed slot script n inUse => exact h inUse
  | closed slot inUse => exact absurd hopen (by simp)

/-- What is handled and balanced stays tallied. -/
theorem Tallied.handled {a : Answers} (ha : a.accept ≠ 0)
    (hclock : 0 < a.accept → a.clock < maxInt64)
    {r r' : Resources} {obs : List Observation} (h : Tallied r)
    (hhandled : Handled a r.conns r'.conns obs) (hbalanced : Balanced a r r' obs) :
    Tallied r' where
  total := by
    have hcount := hhandled.count ha
    have htotal := hbalanced ha
    have := h.total
    omega
  length_eq := hhandled.length_eq.trans h.length_eq
  timed := by
    have halong : Along (fun _ conn => 0 < conn.fd → conn.openTime < maxInt64) [] r.conns :=
      fun i conn hconn => h.timed conn (List.mem_of_getElem? hconn)
    intro conn hmem
    obtain ⟨i, hi⟩ := List.mem_iff_getElem?.mp hmem
    exact halong.handled (fun hold htouch => htouch.timed ha hclock hold) hhandled i conn hi

/-- A full table has a connection to give up. -/
theorem Tallied.evict_ok {r : Resources} (h : Tallied r) :
    ∃ r₁ obs, r.evict = .ok (r₁, obs) ∧ Tallied r₁ ∧ r₁.connsTotal < maxConcurrency := by
  unfold Resources.evict
  by_cases hfull : r.connsTotal ≥ maxConcurrency
  · have hpos : 0 < openCount r.conns := by
      rw [← h.total]
      exact Nat.lt_of_lt_of_le (by decide) hfull
    obtain ⟨conn, hmem, hopen⟩ := List.countP_pos_iff.mp hpos
    have hopen' : 0 < conn.fd := of_decide_eq_true hopen
    obtain ⟨i, hi⟩ := exists_oldest hmem hopen' (h.timed conn hmem hopen')
    obtain ⟨old, hold⟩ := oldest_spec hi
    have hone : 1 ≤ r.connsTotal := by
      rw [h.total]
      exact hpos
    have hfree := freeConn_eq hold.conn_eq hone
    let a : Answers := ⟨1, true, 0, fun _ => 0, [], 0⟩
    have ht := Yields.of_ok (freeConn_yields (E := fun _ => False) a hold.conn_eq hold.inUse) hfree
    have htallied := h.handled (a := a) (by decide) (fun _ => by decide) ht.handled ht.total
    rw [if_pos hfull, hi]
    refine ⟨_, _, hfree, htallied, ?_⟩
    have := h.bounded
    dsimp only
    omega
  · rw [if_neg hfull]
    exact ⟨r, [], rfl, h, by omega⟩

/-- A table that is not full has a slot for a new connection. -/
theorem Tallied.exists_slot {r : Resources} (h : Tallied r) (hlt : r.connsTotal < maxConcurrency) :
    ∃ i conn, r.conns.findIdx? (fun conn => decide (conn.fd ≤ 0)) = some i ∧
      r.conns[i]? = some conn := by
  cases hfind : r.conns.findIdx? fun conn => decide (conn.fd ≤ 0) with
  | some i =>
    obtain ⟨hi, -⟩ := List.findIdx?_eq_some_iff_getElem.mp hfind
    exact ⟨i, r.conns[i], rfl, List.getElem?_eq_getElem hi⟩
  | none =>
    have hall : openCount r.conns = r.conns.length := by
      refine List.countP_eq_length.mpr fun conn hmem => ?_
      have hused := List.findIdx?_eq_none_iff.mp hfind conn hmem
      simpa using hused
    rw [← h.total, h.length_eq] at hall
    omega

/-- An event of the listening socket is handled unless `epoll_ctl` fails for an accepted
connection. -/
theorem Tallied.handleAccept_iff {r : Resources} (h : Tallied r) (a : Answers) :
    (∃ r' obs, handleAccept a r = .ok (r', obs)) ↔ (0 < a.accept → a.epollCtl = true) := by
  obtain ⟨r₁, evicted, hevict, h₁, hlt⟩ := h.evict_ok
  unfold handleAccept
  rw [hevict, ok_bind]
  dsimp only
  by_cases hrefused : a.accept < 0
  · rw [if_pos hrefused]
    exact iff_of_true ⟨r₁, evicted, rfl⟩ fun hpos => absurd hpos (by omega)
  · obtain ⟨i, conn, hfind, hconn⟩ := h₁.exists_slot hlt
    rw [if_neg hrefused]
    unfold Resources.register connAt
    dsimp only
    rw [hfind]
    dsimp only
    rw [hconn, ok_bind]
    cases hctl : a.epollCtl with
    | true =>
      rw [if_neg (by simp)]
      exact iff_of_true ⟨_, _, rfl⟩ fun _ => rfl
    | false =>
      rw [if_pos rfl]
      by_cases hzero : a.accept = 0
      · rw [assertThat_eq (by simpa using hzero)]
        exact iff_of_true ⟨_, _, rfl⟩ fun hpos => absurd hpos (by omega)
      · refine iff_of_false ?_ fun hregistered => absurd (hregistered (by omega)) (by simp)
        rintro ⟨r', obs, hok⟩
        simp [assertThat, hzero] at hok

/-- A refused connection changes only the slot that was evicted for it. -/
theorem handleAccept_refused {a : Answers} {r r' : Resources} {obs : List Observation}
    (ha : a.accept < 0) (h : handleAccept a r = .ok (r', obs)) (i : ℕ) (hi : ¬ r.Evicts i) :
    r'.conns[i]? = r.conns[i]? := by
  unfold handleAccept at h
  cases hevict : r.evict with
  | error stop =>
    rw [hevict] at h
    cases h
  | ok p =>
    obtain ⟨r₁, evicted⟩ := p
    rw [hevict, ok_bind] at h
    dsimp only at h
    rw [if_pos ha] at h
    obtain ⟨rfl, rfl⟩ := Prod.mk.inj (Except.ok.inj h)
    have ht := Yields.of_ok (evict_yields (E := fun _ => False) a r) hevict
    exact ht.handled.same fun o ho heq => hi (heq ▸ ht.about o ho)

section Steps

variable {verify : PubKey → Bytes → Bytes → Bool}

/-- Handling an event keeps the tally: one of a connection whatever the answers are. -/
theorem Tallied.handleEvent {e : Event} {a : Answers} {r r' : Resources} {obs : List Observation}
    (h : Tallied r) (ha : e.data = maxInt32 → a.accept ≠ 0)
    (hclock : e.data = maxInt32 → 0 < a.accept → a.clock < maxInt64)
    (hevent : handleEvent verify e a r = .ok (r', obs)) : Tallied r' := by
  by_cases hlistener : e.data = maxInt32
  · obtain ⟨hhandled, hbalanced, -⟩ := (handleEvent_yields verify a e r).of_ok hevent
    exact h.handled (ha hlistener) (hclock hlistener) hhandled hbalanced
  · rw [handleEvent_registering hlistener] at hevent
    obtain ⟨hhandled, hbalanced, -⟩ := (handleEvent_yields verify a.registering e r).of_ok hevent
    have haccept : a.registering.accept ≠ 0 := Int.one_ne_zero
    have hclock : a.registering.clock < maxInt64 := show (0 : ℤ) < maxInt64 by decide
    exact h.handled haccept (fun _ => hclock) hhandled hbalanced

theorem tallied_start (store : KeyStore) : Tallied (Server.start store).resources where
  total := by
    change 0 = openCount (List.replicate maxConcurrency _)
    rw [openCount, List.countP_replicate]
    rfl
  length_eq := List.length_replicate
  timed conn hmem := by
    obtain rfl := List.eq_of_mem_replicate hmem
    exact fun hopen => absurd hopen (by simp)

theorem Tallied.step {s t : Server} {l : Label} (h : Tallied s.resources)
    (hstep : CountingStep verify s l t) : Tallied t.resources := by
  obtain ⟨hstep, hregisters⟩ := hstep
  rcases Server.step_cases verify hstep with ⟨-, rfl⟩ | ⟨events, -, -, -, rfl⟩ |
    ⟨a, e, events, rfl, -, hpending, rfl⟩
  · exact h
  · exact h
  · cases hevent : X509Server.handleEvent verify e a s.resources with
    | ok p =>
      have ha := hregisters a e events rfl hpending
      exact h.handleEvent (fun hlistener => (ha hlistener).accept_ne)
        (fun hlistener => (ha hlistener).clock_lt) hevent
    | error stop => cases stop <;> exact h

theorem Tallied.counted {s : Server} (h : Tallied s.resources) : Counted verify s where
  total := h.total
  bounded := h.bounded
  served a e hlistener := by
    unfold X509Server.handleEvent
    rw [if_pos hlistener]
    exact h.handleAccept_iff a
  refused a e r obs hlistener ha hevent i hi := by
    unfold X509Server.handleEvent at hevent
    rw [if_pos hlistener] at hevent
    exact handleAccept_refused ha hevent i hi

end Steps

/-- In a run in which accepted connections are registered, the count is right in every state,
and no event of the listening socket fails an assertion. -/
theorem connections_counted (verify : PubKey → Bytes → Bytes → Bool) (store : KeyStore)
    (labels : List Label) (s : Server)
    (hrun : Run (CountingStep verify) (Server.start store) labels s) : Counted verify s := by
  have htallied : Tallied s.resources :=
    hrun.invariant (I := fun s => Tallied s.resources) (fun s l t h hstep => h.step hstep)
      (tallied_start store)
  exact htallied.counted

/-- One connection. -/
theorem connections_counted_one :
    ∃ s : Server, s.resources.connsTotal = 1 ∧ Counted (fun _ _ _ => true) s := by
  have hrun : ∃ s, Run (CountingStep fun _ _ _ => true) (Server.start (keysUntil [1]))
      [.wait [⟨maxInt32, true, false, false, false⟩], .handle (quietAnswers 0)] s ∧
        s.resources.connsTotal = 1 := by
    refine ⟨_, .cons ⟨rfl, ?_⟩ (.cons ⟨rfl, ?_⟩ (.nil _)), rfl⟩
    · rintro a e events ⟨⟩
    · rintro a e events ⟨⟩ - -
      exact ⟨by decide, fun _ => rfl, fun _ => by decide⟩
  obtain ⟨s, hrun, htotal⟩ := hrun
  exact ⟨s, htotal, connections_counted _ _ _ s hrun⟩

/-- `epoll_ctl` fails for the first connection. -/
def unregisteredSession : List Label :=
  [.wait [⟨maxInt32, true, false, false, false⟩],
    .handle ⟨5, false, 0, fun _ => 0, [], 0⟩]

/-- The server is then aborted by `assert(conn_fd == 0)`. -/
theorem unregistered_aborts :
    (unregisteredSession.foldlM (Server.step fun _ _ _ => true)
      (Server.start (keysUntil [1]))).map (fun s => s.phase) =
        some (.aborted .assertFailed) := by
  decide +kernel

end X509Server
