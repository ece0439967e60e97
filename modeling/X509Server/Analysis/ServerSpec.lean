import X509Server.Analysis.ElementSpec
import X509Server.Interface.Sessions

/-!
# What the handlers do

Each handler of an event is described once.  Connection by connection its observations are
steps of one small relation, `Touch`, so whatever is to be shown about a connection over a
run is shown for `Touch`.  The keys change in one place only, behind a `Decision`.
-/

set_option autoImplicit false

namespace X509Server

open Checked Runs

/-! ## One connection -/

/-- A connection behind one `recv`. -/
def Connection.store (conn : Connection) (chunk : Bytes) : Connection :=
  if (conn.append chunk).bufSize ≥ maxScriptSize then conn.append chunk
  else (conn.append chunk).grow

/-- What an observation means for the connection in its slot. -/
inductive Touch (a : Answers) : Connection → Observation → Connection → Prop where
  | opened {conn : Connection} (slot : ℕ) (unused : conn.fd ≤ 0) (accepted : 0 ≤ a.accept) :
      Touch a conn (.opened slot) (conn.attach a)
  | received {conn : Connection} (slot : ℕ) (chunk : Bytes) (inUse : 0 < conn.fd)
      (allocated : conn.buf.isSome = true)
      (room : conn.bufSize + chunk.length ≤ conn.bufCap) :
      Touch a conn (.received slot chunk) (conn.store chunk)
  | terminated {conn : Connection} (slot : ℕ) (inUse : 0 < conn.fd) :
      Touch a conn (.terminated slot a.time) conn
  | executed {conn : Connection} (slot : ℕ) (script : Bytes) (n : ℕ) (inUse : 0 < conn.fd) :
      Touch a conn (.executed slot script n) conn
  | closed {conn : Connection} (slot : ℕ) (inUse : 0 < conn.fd) :
      Touch a conn (.closed slot) { conn with fd := 0, bufSize := 0, openTime := 0 }

def Observation.opens : Observation → ℕ
  | .opened _ => 1
  | _ => 0

def Observation.closes : Observation → ℕ
  | .closed _ => 1
  | _ => 0

/-- How many connections are opened. -/
def openings (obs : List Observation) : ℕ := (obs.map Observation.opens).sum

/-- How many connections are closed. -/
def closings (obs : List Observation) : ℕ := (obs.map Observation.closes).sum

@[simp] theorem openings_append (obs obs' : List Observation) :
    openings (obs ++ obs') = openings obs + openings obs' := by
  simp [openings]

@[simp] theorem closings_append (obs obs' : List Observation) :
    closings (obs ++ obs') = closings obs + closings obs' := by
  simp [closings]

theorem Connection.grow_fd (conn : Connection) : conn.grow.fd = conn.fd := by
  unfold Connection.grow
  split <;> rfl

theorem Connection.store_fd (conn : Connection) (chunk : Bytes) :
    (conn.store chunk).fd = conn.fd := by
  unfold Connection.store
  split
  · rfl
  · exact (conn.append chunk).grow_fd

theorem Connection.grow_bufSize (conn : Connection) : conn.grow.bufSize = conn.bufSize := by
  unfold Connection.grow
  split <;> rfl

theorem Connection.attach_sized (conn : Connection) (a : Answers)
    (h : conn.bufSize < maxScriptSize) : (conn.attach a).bufSize < maxScriptSize := by
  unfold Connection.attach
  cases conn.buf
  · exact Nat.lt_of_le_of_lt (Nat.zero_le _) h
  · exact h

theorem Connection.attach_fd (conn : Connection) (a : Answers) : (conn.attach a).fd = a.accept := by
  unfold Connection.attach
  cases conn.buf <;> rfl

/-- A touch that opens or closes a connection is the only one that changes its use. -/
theorem Touch.count {a : Answers} (ha : a.accept ≠ 0) {conn conn' : Connection} {o : Observation}
    (h : Touch a conn o conn') :
    (if 0 < conn'.fd then 1 else 0) + o.closes = (if 0 < conn.fd then 1 else 0) + o.opens := by
  cases h with
  | opened slot unused accepted =>
    have hpos : 0 < a.accept := by omega
    rw [conn.attach_fd, if_pos hpos, if_neg (by omega)]
    rfl
  | received slot chunk inUse allocated room =>
    rw [conn.store_fd]
    rfl
  | terminated slot inUse => rfl
  | executed slot script n inUse => rfl
  | closed slot inUse =>
    rw [if_neg (by simp), if_pos inUse]
    rfl

theorem count_run {a : Answers} (ha : a.accept ≠ 0) {conn conn' : Connection}
    {obs : List Observation} (h : Run (Touch a) conn obs conn') :
    (if 0 < conn'.fd then 1 else 0) + closings obs =
      (if 0 < conn.fd then 1 else 0) + openings obs := by
  induction h with
  | nil conn => rfl
  | cons head tail ih =>
    have hfirst := head.count ha
    simp only [closings, openings, List.map_cons, List.sum_cons] at ih ⊢
    omega

/-! ## The table of connections -/

/-- Replacing a connection by one that is as much in use. -/
theorem openCount_set {conns : List Connection} {i : ℕ} {conn : Connection}
    (hconn : conns[i]? = some conn) (conn' : Connection) :
    openCount (conns.set i conn') + (if 0 < conn.fd then 1 else 0) =
      openCount conns + (if 0 < conn'.fd then 1 else 0) := by
  obtain ⟨hlt, rfl⟩ := List.getElem?_eq_some_iff.mp hconn
  have hmem : (if 0 < conns[i].fd then 1 else 0) ≤ openCount conns := by
    split
    · rename_i hopen
      exact List.countP_pos_iff.mpr ⟨conns[i], List.getElem_mem hlt, by simpa using hopen⟩
    · exact Nat.zero_le _
  unfold openCount at hmem ⊢
  rw [List.countP_set hlt]
  simp only [decide_eq_true_eq]
  omega

/-- Every connection is touched by the observations about its slot, in their order. -/
structure Handled (a : Answers) (conns conns' : List Connection) (obs : List Observation) :
    Prop where
  length_eq : conns'.length = conns.length
  inRange : ∀ o ∈ obs, o.slot < conns.length
  touches : ∀ i conn, conns[i]? = some conn → ∃ conn', conns'[i]? = some conn' ∧
    Run (Touch a) conn (obs.filter fun o => o.slot = i) conn'
  sized : (∀ conn ∈ conns, conn.bufSize < maxScriptSize) →
    ∀ conn ∈ conns', conn.bufSize < maxScriptSize
  count : a.accept ≠ 0 → openCount conns' + closings obs = openCount conns + openings obs

variable {a : Answers} {conns conns' conns'' : List Connection} {obs obs' : List Observation}

theorem Handled.refl (a : Answers) (conns : List Connection) : Handled a conns conns [] :=
  ⟨rfl, by simp, fun _ conn hconn => ⟨conn, hconn, .nil conn⟩, id, fun _ => rfl⟩

theorem Handled.trans (h : Handled a conns conns' obs) (h' : Handled a conns' conns'' obs') :
    Handled a conns conns'' (obs ++ obs') where
  length_eq := h'.length_eq.trans h.length_eq
  inRange := by
    intro o ho
    rcases List.mem_append.mp ho with ho | ho
    · exact h.inRange o ho
    · rw [← h.length_eq]
      exact h'.inRange o ho
  touches := by
    intro i conn hconn
    obtain ⟨conn', hconn', hrun⟩ := h.touches i conn hconn
    obtain ⟨conn'', hconn'', hrun'⟩ := h'.touches i conn' hconn'
    rw [List.filter_append]
    exact ⟨conn'', hconn'', hrun.append hrun'⟩
  sized hsized := h'.sized (h.sized hsized)
  count := by
    intro ha
    have hfirst := h.count ha
    have hsecond := h'.count ha
    rw [openings_append, closings_append]
    omega

/-- Observations about one slot touch its connection only. -/
theorem Handled.set {slot : ℕ} {conn conn' : Connection} (hconn : conns[slot]? = some conn)
    (hslot : ∀ o ∈ obs, o.slot = slot) (hrun : Run (Touch a) conn obs conn')
    (hsized : conn.bufSize < maxScriptSize → conn'.bufSize < maxScriptSize) :
    Handled a conns (conns.set slot conn') obs where
  length_eq := List.length_set
  inRange := by
    intro o ho
    rw [hslot o ho]
    exact (List.getElem?_eq_some_iff.mp hconn).1
  touches := by
    intro i old hold
    by_cases hi : i = slot
    · subst hi
      obtain rfl := Option.some.inj (hconn.symm.trans hold)
      have hlt : i < conns.length := (List.getElem?_eq_some_iff.mp hconn).1
      have hfilter : obs.filter (fun o => o.slot = i) = obs :=
        List.filter_eq_self.mpr fun o ho => by simpa using hslot o ho
      rw [hfilter]
      exact ⟨conn', by simp [hlt], hrun⟩
    · have hfilter : obs.filter (fun o => o.slot = i) = [] := by
        refine List.filter_eq_nil_iff.mpr fun o ho => ?_
        rw [hslot o ho]
        simpa using Ne.symm hi
      rw [hfilter]
      exact ⟨old, by rw [List.getElem?_set_ne (Ne.symm hi)]; exact hold, .nil old⟩
  sized := by
    intro hall old hold
    rcases List.mem_or_eq_of_mem_set hold with hmem | rfl
    · exact hall old hmem
    · exact hsized (hall conn (List.mem_of_getElem? hconn))
  count := by
    intro ha
    have hset := openCount_set hconn conn'
    have hrun := count_run ha hrun
    omega

/-- A slot without observations is as it was. -/
theorem Handled.same (h : Handled a conns conns' obs) {i : ℕ} (hi : ∀ o ∈ obs, o.slot ≠ i) :
    conns'[i]? = conns[i]? := by
  have hnone : obs.filter (fun o => o.slot = i) = [] :=
    List.filter_eq_nil_iff.mpr fun o ho => by simpa using hi o ho
  by_cases hlt : i < conns.length
  · obtain ⟨conn', hconn', hrun⟩ := h.touches i _ (List.getElem?_eq_getElem hlt)
    rw [hnone] at hrun
    cases hrun
    rw [hconn', List.getElem?_eq_getElem hlt]
  · have hlength := h.length_eq
    rw [List.getElem?_eq_none (by omega), List.getElem?_eq_none (by omega)]

/-! ## What does not touch the keys -/

/-- Everything but the handling of a terminated connection. -/
def Observation.Silent : Observation → Prop
  | .terminated _ _ => False
  | .executed _ _ _ => False
  | _ => True

/-- `conns_total` follows the observations. -/
def Balanced (a : Answers) (r r' : Resources) (obs : List Observation) : Prop :=
  a.accept ≠ 0 → r'.connsTotal + closings obs = r.connsTotal + openings obs

theorem Balanced.trans {r r' r'' : Resources} (h : Balanced a r r' obs)
    (h' : Balanced a r' r'' obs') : Balanced a r r'' (obs ++ obs') := by
  intro ha
  have hfirst := h ha
  have hsecond := h' ha
  rw [openings_append, closings_append]
  omega

/-- The connections are handled, the observations are about certain slots, and nothing is
decided. -/
structure Transported (a : Answers) (about : ℕ → Prop) (r r' : Resources)
    (obs : List Observation) : Prop where
  keys : r'.toKeyStore = r.toKeyStore
  scriptN : r'.scriptN = r.scriptN
  handled : Handled a r.conns r'.conns obs
  total : Balanced a r r' obs
  about : ∀ o ∈ obs, about o.slot
  silent : ∀ o ∈ obs, o.Silent

variable {about about' : ℕ → Prop} {r r' r'' : Resources}

theorem Transported.refl (a : Answers) (about : ℕ → Prop) (r : Resources) :
    Transported a about r r [] :=
  ⟨rfl, rfl, .refl a r.conns, fun _ => rfl, by simp, by simp⟩

theorem Transported.trans (h : Transported a about r r' obs)
    (h' : Transported a about r' r'' obs') : Transported a about r r'' (obs ++ obs') where
  keys := h'.keys.trans h.keys
  scriptN := h'.scriptN.trans h.scriptN
  handled := h.handled.trans h'.handled
  total := h.total.trans h'.total
  about o ho := (List.mem_append.mp ho).elim (h.about o) (h'.about o)
  silent o ho := (List.mem_append.mp ho).elim (h.silent o) (h'.silent o)

theorem Transported.mono (h : Transported a about r r' obs) (hsub : ∀ i, about i → about' i) :
    Transported a about' r r' obs :=
  ⟨h.keys, h.scriptN, h.handled, h.total, fun o ho => hsub _ (h.about o ho), h.silent⟩

variable {E : Exit → Prop}

theorem connAt_yields (conns : List Connection) (i : ℕ) :
    Yields (connAt conns i) (fun conn => conns[i]? = some conn) E := by
  unfold connAt
  split
  · assumption
  · trivial

theorem assertThat_yields (c : Bool) :
    Yields (assertThat c : Served Unit) (fun _ => c = true) E := by
  unfold assertThat
  split
  · assumption
  · trivial

theorem usub_yields (m n : ℕ) :
    Yields (usub m n : Served ℕ) (fun d => n + d = m) E := by
  unfold usub
  refine Yields.ite (fun hle => ?_) fun _ => trivial
  exact Nat.add_sub_cancel' hle

/-- `free_conn` changes the slot and the count. -/
theorem freeConn_self {r : Resources} {i : ℕ} {conn : Connection}
    (hconn : r.conns[i]? = some conn) :
    Yields (r.freeConn i) (fun p => ∃ total, r.connsTotal = total + 1 ∧ p =
      ({ r with
          conns := r.conns.set i { conn with fd := 0, bufSize := 0, openTime := 0 }
          connsTotal := total }, [.closed i])) E := by
  unfold Resources.freeConn connAt
  rw [hconn, ok_bind]
  exact (usub_yields r.connsTotal 1).bind fun total htotal => ⟨total, by omega, rfl⟩

/-- `free_conn` as long as a connection is counted. -/
theorem freeConn_eq {r : Resources} {i : ℕ} {conn : Connection}
    (hconn : r.conns[i]? = some conn) (hone : 1 ≤ r.connsTotal) :
    r.freeConn i = .ok ({ r with
      conns := r.conns.set i { conn with fd := 0, bufSize := 0, openTime := 0 }
      connsTotal := r.connsTotal - 1 }, [.closed i]) := by
  unfold Resources.freeConn connAt
  rw [hconn, ok_bind, usub_eq hone]
  rfl

/-- `free_conn` on a connection in use. -/
theorem freeConn_yields (a : Answers) {r : Resources} {i : ℕ} {conn : Connection}
    (hconn : r.conns[i]? = some conn) (hopen : 0 < conn.fd) :
    Yields (r.freeConn i) (fun p => Transported a (· = i) r p.1 p.2) E := by
  refine (freeConn_self hconn).mono ?_ fun _ => id
  rintro _ ⟨total, htotal, rfl⟩
  have hzero : 0 < maxScriptSize := by decide
  exact ⟨rfl, rfl, .set hconn (by simp [Observation.slot]) (.single (.closed i hopen))
    fun _ => hzero, fun _ => htotal.symm, by simp [Observation.slot],
    by simp [Observation.Silent]⟩

/-! ## The listening socket -/

/-- The first of the connections in use that were opened earliest. -/
structure IsOldest (conns : List Connection) (i : ℕ) (conn : Connection) : Prop where
  conn_eq : conns[i]? = some conn
  inUse : 0 < conn.fd
  earliest : ∀ j conn', conns[j]? = some conn' → 0 < conn'.fd →
    conn.openTime ≤ conn'.openTime ∧ (j < i → conn.openTime < conn'.openTime)

/-- The scan from slot `i` on finds no connection opened before `minOpenTime`, or the oldest
one of these. -/
theorem scanOldest_spec (conns : List Connection) (i : ℕ) (minOpenTime : ℤ)
    (minConn : Option ℕ) :
    (scanOldest conns i minOpenTime minConn = minConn ∧
      ∀ conn ∈ conns, 0 < conn.fd → minOpenTime ≤ conn.openTime) ∨
    ∃ k conn, scanOldest conns i minOpenTime minConn = some (i + k) ∧
      conn.openTime < minOpenTime ∧ IsOldest conns k conn := by
  induction conns generalizing i minOpenTime minConn with
  | nil => exact Or.inl ⟨rfl, by simp⟩
  | cons conn conns ih =>
    unfold scanOldest
    by_cases hfirst : conn.fd > 0 ∧ conn.openTime < minOpenTime
    · rw [if_pos hfirst]
      refine Or.inr ?_
      rcases ih (i + 1) conn.openTime (some i) with ⟨heq, hall⟩ | ⟨k, next, heq, hlt, hk⟩
      · refine ⟨0, conn, heq, hfirst.2, rfl, hfirst.1, ?_⟩
        intro j conn' hconn' hopen
        cases j with
        | zero =>
          obtain rfl := Option.some.inj hconn'
          exact ⟨le_refl _, fun h => absurd h (by omega)⟩
        | succ j =>
          exact ⟨hall conn' (List.mem_of_getElem? hconn') hopen, fun h => absurd h (by omega)⟩
      · refine ⟨k + 1, next, by rw [heq]; congr 1; omega, by omega, hk.conn_eq, hk.inUse, ?_⟩
        intro j conn' hconn' hopen
        cases j with
        | zero =>
          obtain rfl := Option.some.inj hconn'
          exact ⟨by omega, fun _ => hlt⟩
        | succ j =>
          have := hk.earliest j conn' hconn' hopen
          exact ⟨this.1, fun h => this.2 (by omega)⟩
    · rw [if_neg hfirst]
      rcases ih (i + 1) minOpenTime minConn with ⟨heq, hall⟩ | ⟨k, next, heq, hlt, hk⟩
      · refine Or.inl ⟨heq, fun conn' hmem hopen => ?_⟩
        rcases List.mem_cons.mp hmem with rfl | hmem
        · omega
        · exact hall conn' hmem hopen
      · refine Or.inr ⟨k + 1, next, by rw [heq]; congr 1; omega, hlt, hk.conn_eq, hk.inUse, ?_⟩
        intro j conn' hconn' hopen
        cases j with
        | zero =>
          obtain rfl := Option.some.inj hconn'
          exact ⟨by omega, fun _ => by omega⟩
        | succ j =>
          have := hk.earliest j conn' hconn' hopen
          exact ⟨this.1, fun h => this.2 (by omega)⟩

/-- What `oldest` returns, with the time that the scan has seen. -/
theorem oldest_timed {conns : List Connection} {i : ℕ} (h : oldest conns = some i) :
    ∃ conn, IsOldest conns i conn ∧ conn.openTime < maxInt64 := by
  rcases scanOldest_spec conns 0 maxInt64 none with ⟨heq, -⟩ | ⟨k, conn, heq, hlt, hk⟩
  · rw [← oldest, h] at heq
    cases heq
  · rw [← oldest, h, Nat.zero_add] at heq
    obtain rfl := Option.some.inj heq
    exact ⟨conn, hk, hlt⟩

/-- What `oldest` returns. -/
theorem oldest_spec {conns : List Connection} {i : ℕ} (h : oldest conns = some i) :
    ∃ conn, IsOldest conns i conn := by
  obtain ⟨conn, holdest, -⟩ := oldest_timed h
  exact ⟨conn, holdest⟩

/-- It returns a slot as soon as a connection is in use whose time is below the maximum. -/
theorem exists_oldest {conns : List Connection} {conn : Connection} (hmem : conn ∈ conns)
    (hopen : 0 < conn.fd) (htime : conn.openTime < maxInt64) : ∃ i, oldest conns = some i := by
  rcases scanOldest_spec conns 0 maxInt64 none with ⟨-, hall⟩ | ⟨k, next, heq, -, -⟩
  · have := hall conn hmem hopen
    omega
  · exact ⟨0 + k, heq⟩

theorem evict_yields (a : Answers) (r : Resources) :
    Yields r.evict (fun p => Transported a r.Evicts r p.1 p.2) E := by
  unfold Resources.evict
  refine Yields.ite (fun hfull => ?_) fun _ => .refl a _ r
  cases hold : oldest r.conns with
  | none => trivial
  | some i =>
    obtain ⟨conn, holdest⟩ := oldest_spec hold
    refine (freeConn_yields a holdest.conn_eq holdest.inUse).mono (fun p hp => ?_) fun _ => id
    refine hp.mono fun j hj => ?_
    subst hj
    exact ⟨hfull, hold⟩

/-- A new connection goes into a slot that is not in use. -/
theorem register_yields (a : Answers) (r : Resources) (haccept : 0 ≤ a.accept) :
    Yields (r.register a)
      (fun p => Transported a (fun i => ∃ conn, r.conns[i]? = some conn ∧ conn.fd ≤ 0) r p.1 p.2)
      E := by
  unfold Resources.register
  dsimp only
  cases hfind : r.conns.findIdx? fun conn => decide (conn.fd ≤ 0) with
  | none =>
    exact (assertThat_yields _).bind fun _ hzero => ⟨rfl, rfl, .refl a _,
      fun ha => absurd (of_decide_eq_true hzero) ha, by simp, by simp⟩
  | some i =>
    refine (connAt_yields r.conns i).bind fun conn hconn => ?_
    obtain ⟨hlt, hunused, -⟩ := List.findIdx?_eq_some_iff_getElem.mp hfind
    have hfd : conn.fd ≤ 0 := by
      rw [List.getElem?_eq_getElem hlt] at hconn
      obtain rfl := Option.some.inj hconn
      exact of_decide_eq_true hunused
    refine Yields.ite (fun _ => ?_) fun _ => ?_
    · exact (assertThat_yields _).bind fun _ hzero => ⟨rfl, rfl, .refl a _,
        fun ha => absurd (of_decide_eq_true hzero) ha, by simp, by simp⟩
    · exact ⟨rfl, rfl, .set hconn (by simp [Observation.slot])
        (.single (.opened i hfd haccept)) (conn.attach_sized a), fun _ => rfl,
        by simpa [Observation.slot] using ⟨conn, hconn, hfd⟩, by simp [Observation.Silent]⟩

/-- The slots that an event of the listening socket is about. -/
def Resources.Vacant (r : Resources) (i : ℕ) : Prop :=
  r.Evicts i ∨ ∃ conn, r.conns[i]? = some conn ∧ conn.fd ≤ 0

theorem handleAccept_yields (a : Answers) (r : Resources) :
    Yields (handleAccept a r) (fun p => Transported a r.Vacant r p.1 p.2) E := by
  unfold handleAccept
  refine (evict_yields a r).bind ?_
  rintro ⟨r₁, evicted⟩ h₁
  refine Yields.ite (fun _ => h₁.mono fun _ => Or.inl) fun haccept => ?_
  refine (register_yields a r₁ (by omega)).bind ?_
  rintro ⟨r₂, opened⟩ h₂
  refine (h₁.mono fun _ => Or.inl).trans (h₂.mono ?_)
  rintro i ⟨conn', hconn', hfd⟩
  by_cases hev : r.Evicts i
  · exact Or.inl hev
  · -- a slot that has not been evicted is as it was
    have hsame : r₁.conns[i]? = r.conns[i]? := h₁.handled.same fun o ho heq =>
      hev (heq ▸ h₁.about o ho)
    exact Or.inr ⟨conn', hsame ▸ hconn', hfd⟩

/-! ## Receiving -/

theorem recvLoop_yields (a : Answers) (slot : ℕ) (results : List RecvResult) (conn : Connection)
    (hopen : 0 < conn.fd) :
    Yields (recvLoop results conn) (fun reception =>
      Run (Touch a) conn (reception.chunks.map (.received slot)) reception.conn ∧
        reception.conn.fd = conn.fd ∧ (reception.dropped = false →
          conn.bufSize < maxScriptSize → reception.conn.bufSize < maxScriptSize)) E := by
  induction results generalizing conn with
  | nil => exact ⟨.nil conn, rfl, fun _ => id⟩
  | cons result results ih =>
    cases result with
    | failed again => exact ⟨.nil conn, rfl, fun _ => id⟩
    | data available =>
      refine (usub_yields conn.bufCap conn.bufSize).bind fun room hroom => ?_
      refine Yields.ite (fun _ => ⟨.nil conn, rfl, fun _ => id⟩) fun _ => ?_
      refine Yields.ite (fun _ => trivial) fun hbuf => ?_
      have hallocated : conn.buf.isSome = true := by
        cases h : conn.buf with
        | none => simp [h] at hbuf
        | some cells => rfl
      have hfits : conn.bufSize + (available.take room).length ≤ conn.bufCap := by
        have := List.length_take_le room available
        omega
      have htouch := Touch.received (a := a) slot (available.take room) hopen hallocated hfits
      refine Yields.ite (fun hlarge => ?_) fun hsmall => ?_
      · rw [Connection.store, if_pos hlarge] at htouch
        exact ⟨.single htouch, rfl, fun hkept => nomatch hkept⟩
      · rw [Connection.store, if_neg hsmall] at htouch
        have hfd := (conn.append (available.take room)).grow_fd
        refine (ih _ (by rw [hfd]; exact hopen)).bind fun rest hrest => ?_
        refine ⟨.cons htouch hrest.1, hrest.2.1.trans hfd, fun hkept _ => hrest.2.2 hkept ?_⟩
        rw [Connection.grow_bufSize]
        omega

/-- What the receive loop is observed as. -/
theorem mem_chunks {slot : ℕ} {chunks : List Bytes} {o : Observation}
    (h : o ∈ chunks.map (Observation.received slot)) : o.slot = slot ∧ o.Silent := by
  obtain ⟨chunk, -, rfl⟩ := List.mem_map.mp h
  exact ⟨rfl, trivial⟩

theorem count_chunks (slot : ℕ) (chunks : List Bytes) :
    openings (chunks.map (.received slot)) = 0 ∧ closings (chunks.map (.received slot)) = 0 := by
  unfold openings closings
  induction chunks with
  | nil => exact ⟨rfl, rfl⟩
  | cons chunk chunks ih =>
    simp only [List.map_cons, List.sum_cons, ih.1, ih.2, Observation.opens, Observation.closes]
    exact ⟨trivial, trivial⟩

/-- The first part of a connection's event. -/
theorem handleReceive_yields (a : Answers) (slot : ℕ) (e : Event) (r : Resources)
    (hopen : ∀ conn, r.conns[slot]? = some conn → 0 < conn.fd) :
    Yields (handleReceive slot e a r) (fun p => Transported a (· = slot) r p.1 p.2) E := by
  unfold handleReceive
  refine Yields.ite (fun _ => ?_) fun _ => .refl a _ r
  refine (connAt_yields r.conns slot).bind fun conn hconn => ?_
  refine (recvLoop_yields a slot a.recvs conn (hopen conn hconn)).bind fun reception hrun => ?_
  obtain ⟨htouches, hfd, hsized⟩ := hrun
  have hlt : slot < r.conns.length := (List.getElem?_eq_some_iff.mp hconn).1
  obtain ⟨hopenings, hclosings⟩ := count_chunks slot reception.chunks
  refine Yields.ite (fun _ => ?_) fun hkept => ?_
  · -- the buffer may be full, but it is given up with the connection
    have hopen' : 0 < reception.conn.fd := by
      have := hopen conn hconn
      omega
    have hzero : 0 < maxScriptSize := by decide
    refine (freeConn_self (r := { r with conns := r.conns.set slot reception.conn })
      (List.getElem?_set_self hlt)).bind ?_
    rintro _ ⟨total, htotal, rfl⟩
    have hboth : ∀ o ∈ reception.chunks.map (Observation.received slot) ++ [.closed slot],
        o.slot = slot ∧ o.Silent := by
      intro o ho
      rcases List.mem_append.mp ho with ho | ho
      · exact mem_chunks ho
      · obtain rfl := List.mem_singleton.mp ho
        exact ⟨rfl, trivial⟩
    refine ⟨rfl, rfl, ?_, ?_, fun o ho => (hboth o ho).1, fun o ho => (hboth o ho).2⟩
    · rw [List.set_set]
      exact .set hconn (fun o ho => (hboth o ho).1)
        (htouches.append (.single (.closed slot hopen'))) fun _ => hzero
    · intro _
      rw [openings_append, closings_append, hopenings, hclosings]
      exact htotal.symm
  · refine ⟨rfl, rfl, .set hconn (fun o ho => (mem_chunks ho).1) htouches
      (hsized (by simpa using hkept)), ?_, fun o ho => (mem_chunks ho).1,
      fun o ho => (mem_chunks ho).2⟩
    intro _
    rw [hopenings, hclosings]

/-- The third part. -/
theorem handleError_yields (a : Answers) (slot : ℕ) (e : Event) (r : Resources) :
    Yields (handleError slot e r) (fun p => Transported a (· = slot) r p.1 p.2) E := by
  unfold handleError
  refine (connAt_yields r.conns slot).bind fun conn hconn => ?_
  refine Yields.ite (fun herror => ?_) fun _ => .refl a _ r
  exact freeConn_yields a hconn herror.1

/-! ## Decisions -/

/-- The event of a connection that is in use behind its first part, and has terminated. -/
structure Decision (a : Answers) (slot : ℕ) (e : Event) (r mid : Resources)
    (obs : List Observation) (conn : Connection) : Prop where
  received : handleReceive slot e a r = .ok (mid, obs)
  transported : Transported a (· = slot) r mid obs
  conn_eq : mid.conns[slot]? = some conn
  inUse : 0 < conn.fd
  ended : (e.epollrdhup || e.epollhup) = true

variable (verify : PubKey → Bytes → Bytes → Bool)

/-- What the authentication of a terminated connection is observed as. -/
def decisionLog (slot : ℕ) (now : ℤ) (n : ℕ) : Option Bytes → List Observation
  | none => [.terminated slot now, .closed slot]
  | some script => [.terminated slot now, .executed slot script n, .closed slot]

/-- The second part of a connection's event: nothing, or a decision. -/
theorem handleTermination_yields (a : Answers) (slot : ℕ) (e : Event) (r : Resources) :
    Yields (handleTermination verify slot e a r)
      (fun p => p = (r, []) ∨ ∃ conn keys script,
        (r.conns[slot]? = some conn ∧ 0 < conn.fd ∧ (e.epollrdhup || e.epollhup) = true) ∧
        authenticate verify a.time conn.contents r.toKeyStore = .ok (keys, script) ∧
        p.1.toKeyStore = keys ∧ p.2 = decisionLog slot a.time (r.scriptN + 1) script ∧
        Handled a r.conns p.1.conns p.2 ∧ Balanced a r p.1 p.2)
      fun reason => ∃ conn,
        (r.conns[slot]? = some conn ∧ 0 < conn.fd ∧ (e.epollrdhup || e.epollhup) = true) ∧
        authenticate verify a.time conn.contents r.toKeyStore = .error (.code reason) := by
  unfold handleTermination
  refine (connAt_yields r.conns slot).bind fun conn hconn => ?_
  refine Yields.ite (fun hended => ?_) fun _ => Or.inl rfl
  have hauth := (yields_true (authenticate verify a.time conn.contents r.toKeyStore)).remember
  refine (hauth.mono (fun _ => And.left) fun reason hreason =>
    ⟨conn, ⟨hconn, hended⟩, hreason.1⟩).bind ?_
  rintro ⟨keys, script⟩ hok
  have hslot : ∀ o ∈ decisionLog slot a.time (r.scriptN + 1) script, o.slot = slot := by
    cases script <;> simp [decisionLog, Observation.slot]
  have hclosed := Touch.closed (a := a) slot hended.1
  have hzero : 0 < maxScriptSize := by decide
  cases script with
  | none =>
    refine (freeConn_self (r := { r with toKeyStore := keys }) hconn).bind ?_
    rintro _ ⟨total, htotal, rfl⟩
    exact Or.inr ⟨conn, keys, none, ⟨hconn, hended⟩, hok, rfl, rfl,
      .set hconn hslot (.cons (.terminated slot hended.1) (.single hclosed)) fun _ => hzero,
      fun _ => htotal.symm⟩
  | some script =>
    refine (freeConn_self
      (r := { r with toKeyStore := keys, scriptN := r.scriptN + 1 }) hconn).bind ?_
    rintro _ ⟨total, htotal, rfl⟩
    exact Or.inr ⟨conn, keys, some script, ⟨hconn, hended⟩, hok, rfl, rfl,
      .set hconn hslot (.cons (.terminated slot hended.1)
        (.cons (.executed slot script _ hended.1) (.single hclosed))) fun _ => hzero,
      fun _ => htotal.symm⟩

theorem decisionLog_slot {slot n : ℕ} {now : ℤ} {script : Option Bytes} {o : Observation}
    (ho : o ∈ decisionLog slot now n script) : o.slot = slot := by
  cases script with
  | none =>
    simp only [decisionLog, List.mem_cons, List.not_mem_nil, or_false] at ho
    rcases ho with rfl | rfl <;> rfl
  | some script =>
    simp only [decisionLog, List.mem_cons, List.not_mem_nil, or_false] at ho
    rcases ho with rfl | rfl | rfl <;> rfl

/-- An event that has been handled: nothing was decided, or one decision was made, and
`authenticate` returned. -/
inductive Outcome (a : Answers) (slot : ℕ) (e : Event) (r r' : Resources)
    (obs : List Observation) : Prop where
  | transported (h : Transported a (fun _ => True) r r' obs)
  | decided {mid : Resources} {conn : Connection} {script : Option Bytes}
      {obs₁ obs₃ : List Observation} (decision : Decision a slot e r mid obs₁ conn)
      (auth : authenticate verify a.time conn.contents r.toKeyStore =
        .ok (r'.toKeyStore, script))
      (obs_eq : obs = obs₁ ++ decisionLog slot a.time (r.scriptN + 1) script ++ obs₃)
      (silent : ∀ o ∈ obs₃, o.Silent)

/-- An event of a connection.  It is about its slot, and ends the server only if the
authentication does. -/
theorem handleConn_yields (a : Answers) (slot : ℕ) (e : Event) (r : Resources) :
    Yields (handleConn verify slot e a r)
      (fun p => Handled a r.conns p.1.conns p.2 ∧ Balanced a r p.1 p.2 ∧
        (∀ o ∈ p.2, o.slot = slot) ∧ Outcome verify a slot e r p.1 p.2)
      fun reason => ∃ mid obs conn, Decision a slot e r mid obs conn ∧
        authenticate verify a.time conn.contents r.toKeyStore = .error (.code reason) := by
  unfold handleConn
  refine (connAt_yields r.conns slot).bind fun conn hconn => ?_
  refine (assertThat_yields _).bind fun _ hassert => ?_
  have hopen : ∀ conn', r.conns[slot]? = some conn' → 0 < conn'.fd := by
    intro conn' hconn'
    obtain rfl := Option.some.inj (hconn.symm.trans hconn')
    exact of_decide_eq_true hassert
  have hreceive := (handleReceive_yields (E := fun _ => False) a slot e r hopen).remember
  refine (hreceive.mono (fun _ => id) fun _ hfalse => hfalse.2.elim).bind ?_
  rintro ⟨mid, obs₁⟩ ⟨hok, h₁⟩
  have hdecision : ∀ conn', (mid.conns[slot]? = some conn' ∧ 0 < conn'.fd ∧
      (e.epollrdhup || e.epollhup) = true) → Decision a slot e r mid obs₁ conn' :=
    fun conn' h => ⟨hok, h₁, h.1, h.2.1, h.2.2⟩
  have htermination := handleTermination_yields verify a slot e mid
  dsimp only at h₁
  rw [h₁.keys, h₁.scriptN] at htermination
  refine (htermination.mono (fun _ => id) fun reason ⟨conn', h, hauth⟩ =>
    ⟨mid, obs₁, conn', hdecision conn' h, hauth⟩).bind ?_
  rintro ⟨r₂, obs₂⟩ h₂
  refine (handleError_yields a slot e r₂).bind ?_
  rintro ⟨r₃, obs₃⟩ h₃
  rcases h₂ with heq | ⟨conn', keys, script, hended, hauth, hkeys, hobs, hhandled, htotal⟩
  · obtain ⟨rfl, rfl⟩ := Prod.mk.inj heq
    have h := (h₁.trans (.refl a (· = slot) r₂)).trans h₃
    exact ⟨h.handled, h.total, h.about, .transported (h.mono fun _ _ => trivial)⟩
  · dsimp only at hkeys hobs hhandled
    refine ⟨(h₁.handled.trans hhandled).trans h₃.handled,
      (h₁.total.trans htotal).trans h₃.total, ?_,
      .decided (hdecision conn' hended) ?_ (by rw [hobs]) h₃.silent⟩
    · intro o ho
      rcases List.mem_append.mp ho with ho | ho
      · rcases List.mem_append.mp ho with ho | ho
        · exact h₁.about o ho
        · rw [hobs] at ho
          exact decisionLog_slot ho
      · exact h₃.about o ho
    · rw [hauth, h₃.keys, hkeys]

/-- One event of a batch. -/
theorem handleEvent_yields (a : Answers) (e : Event) (r : Resources) :
    Yields (handleEvent verify e a r)
      (fun p => Handled a r.conns p.1.conns p.2 ∧ Balanced a r p.1 p.2 ∧
        Outcome verify a e.data e r p.1 p.2)
      fun reason => reason = .invalidData ∨ ∃ mid obs conn, Decision a e.data e r mid obs conn ∧
        authenticate verify a.time conn.contents r.toKeyStore = .error (.code reason) := by
  unfold handleEvent
  refine Yields.ite (fun _ => ?_) fun _ => Yields.ite (fun _ => ?_) fun _ => Or.inl rfl
  · exact (handleAccept_yields (E := fun _ => False) a r).mono
      (fun p hp => ⟨hp.handled, hp.total, .transported (hp.mono fun _ _ => trivial)⟩)
      fun _ => False.elim
  · exact (handleConn_yields verify a e.data e r).mono
      (fun p hp => ⟨hp.1, hp.2.1, hp.2.2.2⟩) fun _ => Or.inr

theorem maxConcurrency_lt : maxConcurrency < maxInt32 := by decide

/-- The slots that the observations of a handled event are about. -/
theorem handleEvent_about {a : Answers} {e : Event} {r r' : Resources} {obs : List Observation}
    (hevent : handleEvent verify e a r = .ok (r', obs)) :
    (e.data = maxInt32 ∧ ∀ o ∈ obs, r.Vacant o.slot) ∨
      (e.data ≠ maxInt32 ∧ ∀ o ∈ obs, o.slot = e.data) := by
  unfold handleEvent at hevent
  by_cases hlistener : e.data = maxInt32
  · rw [if_pos hlistener] at hevent
    have haccept := (handleAccept_yields (E := fun _ => False) a r).of_ok hevent
    exact Or.inl ⟨hlistener, haccept.about⟩
  · rw [if_neg hlistener] at hevent
    split at hevent
    · have hconn := (handleConn_yields verify a e.data e r).of_ok hevent
      exact Or.inr ⟨hlistener, hconn.2.2.1⟩
    · cases hevent

/-! ## The loop -/

/-- What a step of the server can be. -/
theorem Server.step_cases {s t : Server} {l : Label} (h : s.step verify l = some t) :
    (l = .waitFailed ∧ t = { s with phase := .exited .epollWaitFailed }) ∨
      (∃ events, l = .wait events ∧ s.pending = [] ∧ events.length ≤ maxEpollEvents ∧
        t = { s with pending := events }) ∨
      ∃ a e events, l = .handle a ∧ s.phase = .running ∧ s.pending = e :: events ∧
        t = s.advance events (handleEvent verify e a s.resources) := by
  cases l with
  | waitFailed =>
    simp only [Server.step] at h
    split at h
    · exact Or.inl ⟨rfl, (Option.some.inj h).symm⟩
    · cases h
  | wait events =>
    simp only [Server.step] at h
    split at h
    · rename_i hwait
      exact Or.inr (Or.inl ⟨events, rfl, hwait.2.1, hwait.2.2, (Option.some.inj h).symm⟩)
    · cases h
  | handle a =>
    simp only [Server.step] at h
    split at h
    · cases h
    · rename_i e events hpending
      split at h
      · rename_i hrunning
        exact Or.inr (Or.inr ⟨a, e, events, rfl, hrunning, hpending, (Option.some.inj h).symm⟩)
      · cases h

end X509Server
