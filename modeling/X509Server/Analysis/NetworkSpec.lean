import X509Server.Analysis.ExpirySpec
import X509Server.Analysis.KernelSpec
import X509Server.Analysis.RoundTripSpec
import X509Server.Interface.Network

/-!
# Events on the network

What the receive loop takes from a channel (`Receives.recvLoop_eq`), and what an event of a
connection comes to (`handleConn_channel`): it goes on, it is given up, or it has terminated,
and then the channel is at its end and the decision is about everything that was sent.
-/

set_option autoImplicit false

namespace X509Server

open Channels Checked Runs

/-! ## Receiving -/

section Receiving

variable {conn : Connection} {c c' : Channel UInt8} {available : Bytes}

/-- One `recv` with something to return: the chunk fits, and the loop ends at the limit. -/
theorem recvLoop_data (results : List RecvResult) {session : Option Bytes}
    (hrepresents : Represents session conn) (hopen : 0 < conn.fd) (hsome : available ≠ []) :
    let chunk := available.take (conn.bufCap - conn.bufSize)
    conn.bufSize + chunk.length ≤ conn.bufCap ∧
      recvLoop (.data available :: results) conn =
        if (conn.append chunk).bufSize ≥ maxScriptSize then
          .ok ⟨conn.append chunk, true, [chunk]⟩
        else recvLoop results (conn.append chunk).grow >>= fun rest =>
          .ok { rest with chunks := chunk :: rest.chunks } := by
  have hroom := Nat.lt_min.mp (hrepresents.room hopen)
  have hlength := List.length_take_le (conn.bufCap - conn.bufSize) available
  have hchunk : ¬ available.take (conn.bufCap - conn.bufSize) = [] := by
    rw [List.take_eq_nil_iff]
    rintro (hnone | hnil)
    · omega
    · exact hsome hnil
  have hpresent : ¬ conn.buf.isNone = true := by
    rw [← Option.not_isSome, hrepresents.allocated hopen]
    exact Bool.false_ne_true
  refine ⟨by omega, ?_⟩
  conv_lhs => unfold recvLoop
  rw [usub_eq (by omega), ok_bind]
  dsimp only
  rw [if_neg hchunk, if_neg hpresent]

/-- The receive loop reads what the channel gives it, in order; and behind an event that tells
of an end it gives up the connection or comes to the end of the channel. -/
theorem Receives.recvLoop_eq {results : List RecvResult} (h : Receives conn c results c')
    (hrepresents : Represents (some c.read) conn) (hopen : 0 < conn.fd) :
    ∃ reception, recvLoop results conn = .ok reception ∧ c.Later c' ∧
      c'.read = c.read ++ reception.chunks.flatten ∧
      (reception.dropped = false → c.ended = true ∨ c.broken = true → c'.Drained) := by
  induction h with
  | moved move rest ih =>
    obtain ⟨hlater, hread⟩ := Channel.later_move move
    rw [← hread] at hrepresents
    obtain ⟨reception, hloop, hrest, hflatten, hdrained⟩ := ih hrepresents hopen
    refine ⟨reception, hloop, hlater.trans hrest, hread ▸ hflatten, fun hkept hover => ?_⟩
    exact hdrained hkept (hover.imp hlater.ended hlater.broken)
  | @waits conn c nothing runs =>
    refine ⟨⟨conn, false, []⟩, rfl, .refl c, (List.append_nil _).symm, fun _ hover => ?_⟩
    simp [runs] at hover
  | @again conn c results nothing runs =>
    refine ⟨⟨conn, false, []⟩, rfl, .refl c, (List.append_nil _).symm, fun _ hover => ?_⟩
    simp [runs] at hover
  | failed conn c results =>
    exact ⟨⟨conn, true, []⟩, rfl, .refl c, (List.append_nil _).symm, fun hkept => by cases hkept⟩
  | @ended conn c results drained =>
    have hroom := Nat.lt_min.mp (hrepresents.room hopen)
    refine ⟨⟨conn, false, []⟩, ?_, .refl c, (List.append_nil _).symm, fun _ _ => drained⟩
    unfold recvLoop
    rw [usub_eq (by omega), ok_bind]
    dsimp only
    rw [if_pos List.take_nil]
  | @limit conn c available results some_arrived in_order large =>
    obtain ⟨-, hloop⟩ := recvLoop_data results hrepresents hopen some_arrived
    have hprefix := (List.take_prefix (conn.bufCap - conn.bufSize) available).trans in_order
    rw [if_pos large] at hloop
    refine ⟨_, hloop, c.later_take _, ?_, fun hkept => by cases hkept⟩
    rw [Channel.take_read hprefix, List.flatten_singleton]
  | @taken conn c c' available results some_arrived in_order small rest ih =>
    obtain ⟨hfits, hloop⟩ := recvLoop_data results hrepresents hopen some_arrived
    have hprefix := (List.take_prefix (conn.bufCap - conn.bufSize) available).trans in_order
    have hread := Channel.take_read hprefix
    have hnext := hrepresents.append hopen hfits (Nat.not_le.mpr small)
    rw [if_neg (Nat.not_le.mpr small)] at hloop
    obtain ⟨reception, hrest, hlater, hflatten, hdrained⟩ :=
      ih (by rw [hread]; exact hnext) (by rw [Connection.grow_fd]; exact hopen)
    rw [hrest, ok_bind] at hloop
    refine ⟨_, hloop, (c.later_take _).trans hlater, ?_, hdrained⟩
    rw [hflatten, hread, List.append_assoc, List.flatten_cons]

end Receiving

/-! ## Events of a connection -/

section Events

variable {verify : PubKey → Bytes → Bytes → Bool} {slot : ℕ} {e : Event} {a : Answers}
  {r r' : Resources} {obs : List Observation} {conn : Connection} {c c' : Channel UInt8}

/-- What an event takes from the channel of its connection. -/
def Event.Takes (e : Event) (conn : Connection) (a : Answers) (c c' : Channel UInt8) : Prop :=
  if e.epollin then Receives conn c a.recvs c' else c' = c

/-- What an event comes to behind the chunks it receives: the connection goes on or is given
up, or the decision is made about everything that was sent on its channel. -/
inductive Comes (verify : PubKey → Bytes → Bytes → Bool) (slot : ℕ) (a : Answers)
    (c : Channel UInt8) (r r' : Resources) : List Observation → Prop where
  | goesOn (keys : r'.toKeyStore = r.toKeyStore) (scriptN : r'.scriptN = r.scriptN) :
      Comes verify slot a c r r' []
  | givenUp (keys : r'.toKeyStore = r.toKeyStore) (scriptN : r'.scriptN = r.scriptN) :
      Comes verify slot a c r r' [.closed slot]
  | judged (script : Option Bytes) (drained : c.Drained)
      (auth : authenticate verify a.time c.sent r.toKeyStore = .ok (r'.toKeyStore, script))
      (scriptN : r'.scriptN = if script.isSome then r.scriptN + 1 else r.scriptN) :
      Comes verify slot a c r r' (decisionLog slot a.time (r.scriptN + 1) script)

/-- The first part of an event leaves the connection with what has been read from its channel,
or gives it up. -/
inductive Fetches (slot : ℕ) (e : Event) (c : Channel UInt8) (chunks : List Bytes)
    (r mid : Resources) : List Observation → Prop where
  | kept {conn : Connection} (conn_eq : mid.conns[slot]? = some conn) (inUse : 0 < conn.fd)
      (contents : conn.contents = c.read) (total : mid.connsTotal = r.connsTotal)
      (drained : (e.epollrdhup || e.epollhup) = true → c.Drained) :
      Fetches slot e c chunks r mid (chunks.map (.received slot))
  | dropped {conn : Connection} (conn_eq : mid.conns[slot]? = some conn)
      (unused : ¬ 0 < conn.fd) :
      Fetches slot e c chunks r mid (chunks.map (.received slot) ++ [.closed slot])

theorem Event.Takes.handleReceive_eq (h : e.Takes conn a c c')
    (hconn : r.conns[slot]? = some conn) (hrepresents : Represents (some c.read) conn)
    (hopen : 0 < conn.fd) (htotal : 0 < r.connsTotal) (htells : e.Tells c) :
    ∃ chunks : List Bytes, c.Later c' ∧ c'.read = c.read ++ chunks.flatten ∧
      ∃ mid obs, handleReceive slot e a r = .ok (mid, obs) ∧
        mid.toKeyStore = r.toKeyStore ∧ mid.scriptN = r.scriptN ∧
        Fetches slot e c' chunks r mid obs := by
  have hlt := (List.getElem?_eq_some_iff.mp hconn).1
  unfold Event.Takes at h
  unfold handleReceive connAt
  by_cases hin : e.epollin = true
  · rw [if_pos hin] at h
    obtain ⟨reception, hloop, hlater, hread, hdrained⟩ := h.recvLoop_eq hrepresents hopen
    obtain ⟨reception', hloop', hkept⟩ := recvLoop_represents a.recvs hrepresents hopen
    obtain rfl := Except.ok.inj (hloop.symm.trans hloop')
    obtain ⟨-, hfd, -⟩ :=
      (recvLoop_yields (E := fun _ => False) a slot a.recvs conn hopen).of_ok hloop
    have hopen' : 0 < reception.conn.fd := by
      rw [hfd]
      exact hopen
    refine ⟨reception.chunks, hlater, hread, ?_⟩
    rw [if_pos hin, hconn, ok_bind, hloop, ok_bind]
    dsimp only
    cases hdropped : reception.dropped with
    | false =>
      have hcontents : c.read ++ reception.chunks.flatten = reception.conn.contents :=
        Option.some.inj ((hkept hdropped).contents hopen')
      rw [if_neg Bool.false_ne_true]
      exact ⟨_, _, rfl, rfl, rfl, .kept (List.getElem?_set_self hlt) hopen'
        (by rw [hread, hcontents]) rfl fun hended => hdrained hdropped (htells hended).2⟩
    | true =>
      rw [if_pos rfl, freeConn_eq (r := { r with conns := r.conns.set slot reception.conn })
        (List.getElem?_set_self hlt) htotal, ok_bind]
      dsimp only
      rw [List.set_set]
      exact ⟨_, _, rfl, rfl, rfl, .dropped (List.getElem?_set_self hlt) (lt_irrefl 0)⟩
  · rw [if_neg hin] at h
    subst h
    have hcontents := Option.some.inj (hrepresents.contents hopen)
    exact ⟨[], .refl c', (List.append_nil _).symm, r, [], if_neg hin, rfl, rfl,
      .kept hconn hopen hcontents.symm rfl fun hended => absurd (htells hended).1 hin⟩

variable (verify) in
/-- A connection that has been given up is not authenticated. -/
theorem handleTermination_closed (hconn : r.conns[slot]? = some conn) (h : ¬ 0 < conn.fd) :
    handleTermination verify slot e a r = .ok (r, []) := by
  unfold handleTermination connAt
  rw [hconn, ok_bind, if_neg fun hended => h hended.1]

variable (verify) in
/-- An event of a connection, in terms of its channel. -/
theorem Event.Takes.handleConn (h : e.Takes conn a c c') (hconn : r.conns[slot]? = some conn)
    (hrepresents : Represents (some c.read) conn) (hopen : 0 < conn.fd)
    (htotal : 0 < r.connsTotal) (htells : e.Tells c) :
    c.Later c' ∧ ∀ r' obs, handleConn verify slot e a r = .ok (r', obs) →
      ∃ (chunks : List Bytes) (tail : List Observation), c'.read = c.read ++ chunks.flatten ∧
        obs = chunks.map (.received slot) ++ tail ∧ Comes verify slot a c' r r' tail := by
  obtain ⟨chunks, hlater, hread, mid, obs₁, hreceive, hkeys, hscriptN, hfetches⟩ :=
    h.handleReceive_eq hconn hrepresents hopen htotal htells
  refine ⟨hlater, fun r' obs hevent => ⟨chunks, ?_⟩⟩
  unfold X509Server.handleConn at hevent
  rw [connAt, hconn, ok_bind, assertThat_eq (by simpa using hopen), ok_bind, hreceive,
    ok_bind] at hevent
  dsimp only at hevent
  cases hfetches with
  | @dropped conn' hconn' unused =>
    rw [handleTermination_closed verify hconn' unused, ok_bind] at hevent
    dsimp only at hevent
    rw [handleError_closed hconn' unused, ok_bind] at hevent
    obtain ⟨rfl, rfl⟩ := Prod.mk.inj (Except.ok.inj hevent)
    refine ⟨[.closed slot], hread, ?_, .givenUp hkeys hscriptN⟩
    rw [List.append_nil, List.append_nil]
  | @kept conn' hconn' inUse contents total drained =>
    have htotal' : 0 < mid.connsTotal := by
      rw [total]
      exact htotal
    by_cases hended : (e.epollrdhup || e.epollhup) = true
    · have hsent := (drained hended).read_eq_sent.2
      rw [handleTermination_eq verify hconn' inUse hended htotal', contents, hsent, hkeys,
        hscriptN] at hevent
      cases hauth : authenticate verify a.time c'.sent r.toKeyStore with
      | error stop =>
        rw [hauth] at hevent
        cases hevent
      | ok p =>
        have hlt := (List.getElem?_eq_some_iff.mp hconn').1
        rw [hauth, ok_bind, ok_bind] at hevent
        dsimp only at hevent
        rw [handleError_closed (List.getElem?_set_self hlt) (lt_irrefl 0), ok_bind] at hevent
        obtain ⟨rfl, rfl⟩ := Prod.mk.inj (Except.ok.inj hevent)
        refine ⟨decisionLog slot a.time (r.scriptN + 1) p.2, hread, ?_,
          .judged p.2 (drained hended) hauth rfl⟩
        rw [List.append_nil]
    · have hnone : ¬ (conn'.fd > 0 ∧ (e.epollrdhup || e.epollhup) = true) := fun h =>
        hended h.2
      unfold handleTermination handleError connAt at hevent
      rw [hconn', ok_bind, if_neg hnone, ok_bind] at hevent
      dsimp only at hevent
      rw [hconn', ok_bind] at hevent
      by_cases herror : conn'.fd > 0 ∧ e.epollerr = true
      · rw [if_pos herror, freeConn_eq hconn' htotal', ok_bind] at hevent
        obtain ⟨rfl, rfl⟩ := Prod.mk.inj (Except.ok.inj hevent)
        exact ⟨[.closed slot], hread, by rw [List.append_nil], .givenUp hkeys hscriptN⟩
      · rw [if_neg herror, ok_bind] at hevent
        obtain ⟨rfl, rfl⟩ := Prod.mk.inj (Except.ok.inj hevent)
        exact ⟨[], hread, by rw [List.append_nil], .goesOn hkeys hscriptN⟩

/-- An end that has been told of stays. -/
theorem Event.Tells.later (h : e.Tells c) (hlater : c.Later c') : e.Tells c' := by
  intro hended
  obtain ⟨hin, hover⟩ := h hended
  exact ⟨hin, hover.imp hlater.ended hlater.broken⟩

end Events

/-! ## Connections and their channels -/

section Held

variable {k : Kernel} {log obs : List Observation}
  {channels : ℕ → Channel UInt8} {c : Channel UInt8} {id slot : ℕ}

/-- Nothing is received with the observation. -/
def Observation.Fetchless : Observation → Prop
  | .received _ _ => False
  | _ => True

/-- Every slot has received what has been read from the channel of its connection, and from
the channels of connections to come nothing has been read. -/
structure Held (k : Kernel) (log : List Observation) (channels : ℕ → Channel UInt8) :
    Prop where
  read : ∀ i id, k.owner i = some id → received i log = some (channels id).read
  fresh : ∀ id, k.nextId ≤ id → (channels id).read = []

/-- The connection is in no slot any more. -/
def Gone (k : Kernel) (id : ℕ) : Prop := id < k.nextId ∧ ∀ i, k.owner i ≠ some id

theorem held_start : Held .start [] fun _ => .empty where
  read _ _ howner := by cases howner
  fresh _ _ := rfl

theorem fetchless_decisionLog {n : ℕ} {now : ℤ} {script : Option Bytes} {o : Observation}
    (ho : o ∈ decisionLog slot now n script) : o.Fetchless := by
  cases script with
  | none =>
    simp only [decisionLog, List.mem_cons, List.not_mem_nil, or_false] at ho
    rcases ho with rfl | rfl <;> trivial
  | some script =>
    simp only [decisionLog, List.mem_cons, List.not_mem_nil, or_false] at ho
    rcases ho with rfl | rfl | rfl <;> trivial

theorem Comes.fetchless {a : Answers} {r r' : Resources} {verify : PubKey → Bytes → Bytes → Bool}
    (h : Comes verify slot a c r r' obs) : ∀ o ∈ obs, o.Fetchless := by
  cases h with
  | goesOn keys scriptN => simp
  | givenUp keys scriptN => simp [Observation.Fetchless]
  | judged script drained auth scriptN => exact fun o ho => fetchless_decisionLog ho

/-- An event of the listening socket receives nothing. -/
theorem handleAccept_fetchless {E : Exit → Prop} (a : Answers) (r : Resources) :
    Yields (handleAccept a r) (fun p => ∀ o ∈ p.2, o.Fetchless) E := by
  have hevict : Yields r.evict (fun p => ∀ o ∈ p.2, o.Fetchless) E := by
    unfold Resources.evict
    refine Yields.ite (fun _ => ?_) fun _ => by simp
    cases hold : oldest r.conns with
    | none => trivial
    | some i =>
      obtain ⟨conn, holdest⟩ := oldest_spec hold
      refine (freeConn_self holdest.conn_eq).mono ?_ fun _ => id
      rintro _ ⟨total, -, rfl⟩
      simp [Observation.Fetchless]
  have hregister (r : Resources) :
      Yields (r.register a) (fun p => ∀ o ∈ p.2, o.Fetchless) E := by
    unfold Resources.register
    dsimp only
    split
    · exact (assertThat_yields _).bind fun _ _ => by simp
    · refine (connAt_yields _ _).bind fun conn _ => Yields.ite (fun _ => ?_) fun _ => ?_
      · exact (assertThat_yields _).bind fun _ _ => by simp
      · simp [Observation.Fetchless]
  unfold handleAccept
  refine hevict.bind ?_
  rintro ⟨r₁, evicted⟩ h₁
  refine Yields.ite (fun _ => h₁) fun _ => (hregister r₁).bind ?_
  rintro ⟨r₂, opened⟩ h₂ o ho
  exact (List.mem_append.mp ho).elim (h₁ o) (h₂ o)

/-- A channel that moves is not read. -/
theorem Held.moved (h : Held k log channels) (hread : c.read = (channels id).read) :
    Held k log (Function.update channels id c) := by
  have hsame : ∀ id', (Function.update channels id c id').read = (channels id').read := by
    intro id'
    by_cases hid : id' = id
    · subst hid
      rw [Function.update_self, hread]
    · rw [Function.update_of_ne hid]
  refine ⟨fun i id' howner => ?_, fun id' hfresh => ?_⟩
  · rw [hsame]
    exact h.read i id' howner
  · rw [hsame]
    exact h.fresh id' hfresh

theorem Held.observe (h : Held k log channels) {o : Observation} (hnone : o.Fetchless) :
    Held (k.observe false o) (log ++ [o]) channels := by
  have hsame : k.observe false o = k → (∀ i, received i (log ++ [o]) = received i log) →
      Held (k.observe false o) (log ++ [o]) channels := by
    intro hk hlog
    rw [hk]
    exact ⟨fun i id howner => by rw [hlog]; exact h.read i id howner, h.fresh⟩
  cases o with
  | received slot chunk => exact hnone.elim
  | terminated slot now => exact hsame rfl fun i => received_snoc i log _
  | executed slot script n => exact hsame rfl fun i => received_snoc i log _
  | opened slot =>
    refine ⟨fun i id howner => ?_, fun id hid => h.fresh id (Nat.le_of_succ_le hid)⟩
    rw [received_snoc]
    by_cases his : i = slot
    · simp only [Kernel.observe, if_pos his, Option.some.injEq] at howner
      subst howner
      simp [X509Server.observe, his, h.fresh k.nextId (le_refl _)]
    · simp only [Kernel.observe, if_neg his] at howner
      simpa [X509Server.observe, Ne.symm his] using h.read i id howner
  | closed slot =>
    refine ⟨fun i id howner => ?_, h.fresh⟩
    rw [received_snoc]
    by_cases his : i = slot
    · simp [Kernel.observe, his] at howner
    · simp only [Kernel.observe, if_neg his] at howner
      simpa [X509Server.observe, Ne.symm his] using h.read i id howner

/-- Observations with which nothing is received. -/
theorem Held.observeAll (h : Held k log channels) (hnone : ∀ o ∈ obs, o.Fetchless) :
    Held (obs.foldl (fun k o => k.observe false o) k) (log ++ obs) channels := by
  induction obs generalizing k log with
  | nil =>
    rw [List.append_nil]
    exact h
  | cons o obs ih =>
    have hfirst := h.observe (hnone o (by simp))
    have hall := ih hfirst fun o' ho' => hnone o' (List.mem_cons_of_mem _ ho')
    rwa [List.append_assoc] at hall

/-- The kernel does nothing about chunks. -/
theorem observe_chunks (k : Kernel) (slot : ℕ) (chunks : List Bytes) :
    (chunks.map (Observation.received slot)).foldl (fun k o => k.observe false o) k = k := by
  induction chunks with
  | nil => rfl
  | cons chunk chunks ih => exact ih

/-- The chunks of an event are read from the channel of its connection. -/
theorem Held.chunks (h : Held k log channels) (hk : KernelOk k log)
    (howner : k.owner slot = some id) (chunks : List Bytes)
    (hread : c.read = (channels id).read ++ chunks.flatten) :
    Held k (log ++ chunks.map (.received slot)) (Function.update channels id c) := by
  refine ⟨fun i id' howner' => ?_, fun id' hfresh => ?_⟩
  · by_cases hid : id' = id
    · subst hid
      obtain rfl := hk.injective i slot id' howner' howner
      rw [Function.update_self, hread]
      exact received_chunks chunks (h.read i id' howner)
    · have hne : ∀ o ∈ chunks.map (Observation.received slot), o.slot ≠ i := by
        intro o ho heq
        rw [(mem_chunks ho).1] at heq
        rw [heq, howner'] at howner
        exact hid (Option.some.inj howner)
      rw [Function.update_of_ne hid, received_of_ne hne]
      exact h.read i id' howner'
  · have hid : id' ≠ id := by
      have := hk.below slot id howner
      omega
    rw [Function.update_of_ne hid]
    exact h.fresh id' hfresh

/-- Only the slots of the kernel matter. -/
theorem Held.of_eq (h : Held k log channels) {k' : Kernel} (howner : k'.owner = k.owner)
    (hnext : k'.nextId = k.nextId) : Held k' log channels :=
  ⟨by rw [howner]; exact h.read, by rw [hnext]; exact h.fresh⟩

theorem Gone.of_eq (h : Gone k id) {k' : Kernel} (howner : k'.owner = k.owner)
    (hnext : k'.nextId = k.nextId) : Gone k' id :=
  ⟨by rw [hnext]; exact h.1, by rw [howner]; exact h.2⟩

theorem Gone.observe (h : Gone k id) (o : Observation) : Gone (k.observe false o) id := by
  obtain ⟨hlt, hnone⟩ := h
  cases o with
  | received slot chunk => exact ⟨hlt, hnone⟩
  | terminated slot now => exact ⟨hlt, hnone⟩
  | executed slot script n => exact ⟨hlt, hnone⟩
  | opened slot =>
    refine ⟨Nat.lt_succ_of_lt hlt, fun i howner => ?_⟩
    by_cases his : i = slot
    · simp only [Kernel.observe, if_pos his, Option.some.injEq] at howner
      omega
    · simp only [Kernel.observe, if_neg his] at howner
      exact hnone i howner
  | closed slot =>
    refine ⟨hlt, fun i howner => ?_⟩
    by_cases his : i = slot
    · simp [Kernel.observe, his] at howner
    · simp only [Kernel.observe, if_neg his] at howner
      exact hnone i howner

theorem Gone.observeAll (h : Gone k id) (obs : List Observation) :
    Gone (obs.foldl (fun k o => k.observe false o) k) id := by
  induction obs generalizing k with
  | nil => exact h
  | cons o obs ih => exact ih (h.observe o)

/-- A connection whose slot is closed is gone. -/
theorem gone_closed (hk : KernelOk k log) (howner : k.owner slot = some id) :
    Gone (k.observe false (.closed slot)) id := by
  refine ⟨hk.below slot id howner, fun i hi => ?_⟩
  by_cases his : i = slot
  · simp [Kernel.observe, his] at hi
  · simp only [Kernel.observe, if_neg his] at hi
    exact his (hk.injective i slot id hi howner)

/-- So it is behind a decision about it. -/
theorem gone_decided (hk : KernelOk k log) (howner : k.owner slot = some id) (now : ℤ) (n : ℕ)
    (script : Option Bytes) :
    Gone ((decisionLog slot now n script).foldl (fun k o => k.observe false o) k) id := by
  cases script with
  | none => exact gone_closed hk howner
  | some script => exact gone_closed hk howner

end Held

/-! ## Steps -/

section Steps

variable {verify : PubKey → Bytes → Bytes → Bool} {s t : System}

/-- A step of the system is one of the server, or leaves it as it is. -/
theorem AttributingStep.server_step {l : SystemLabel} (h : AttributingStep verify s l t) :
    t.server = s.server ∨ ∃ l', s.server.step verify l' = some t.server := by
  have hstep := h.1
  cases l with
  | waitFailed =>
    obtain ⟨server, hserver, rfl⟩ := Option.map_eq_some_iff.mp hstep
    exact Or.inr ⟨_, hserver⟩
  | wait reports =>
    simp only [System.step] at hstep
    split at hstep
    · obtain ⟨server, hserver, rfl⟩ := Option.map_eq_some_iff.mp hstep
      exact Or.inr ⟨_, hserver⟩
    · cases hstep
  | handle a survives =>
    obtain ⟨server, hserver, rfl⟩ := Option.map_eq_some_iff.mp hstep
    exact Or.inr ⟨_, hserver⟩
  | release id =>
    obtain rfl := Option.some.inj hstep
    exact Or.inl rfl

/-- A step of the system keeps what the delivery of messages relies on. -/
theorem AttributingStep.reached {l : SystemLabel} (h : AttributingStep verify s l t)
    (hreached : Reached verify s.server) : Reached verify t.server := by
  rcases h.server_step with hserver | ⟨l', hserver⟩
  · rw [hserver]
    exact hreached
  · exact hreached.step hserver

/-- The reports behind a step that handles no event. -/
def System.reported (s : System) : SystemLabel → List Report
  | .wait reports => reports
  | _ => s.reports

/-- What a step that handles no event leaves. -/
structure System.Idle (s : System) (l : SystemLabel) (t : System) : Prop where
  resources : t.server.resources = s.server.resources
  log : t.server.log = s.server.log
  owner : t.kernel.owner = s.kernel.owner
  nextId : t.kernel.nextId = s.kernel.nextId
  reports : t.reports = s.reported l
  running : t.server.phase = .running → s.server.phase = .running

theorem AttributingStep.idle {l : SystemLabel} (h : AttributingStep verify s l t)
    (hl : ∀ a survives, l ≠ .handle a survives) : s.Idle l t := by
  have hstep := h.1
  cases l with
  | waitFailed =>
    obtain ⟨server, hserver, rfl⟩ := Option.map_eq_some_iff.mp hstep
    rcases Server.step_cases verify hserver with ⟨-, rfl⟩ | ⟨events, hlabel, -⟩ |
      ⟨a, e, events, hlabel, -⟩
    · exact ⟨rfl, rfl, rfl, rfl, rfl, fun hrunning => by cases hrunning⟩
    · cases hlabel
    · cases hlabel
  | wait reports =>
    simp only [System.step] at hstep
    split at hstep
    · obtain ⟨server, hserver, rfl⟩ := Option.map_eq_some_iff.mp hstep
      rcases Server.step_cases verify hserver with ⟨hlabel, -⟩ | ⟨events, hlabel, -, -, rfl⟩ |
        ⟨a, e, events, hlabel, -⟩
      · cases hlabel
      · exact ⟨rfl, rfl, rfl, rfl, rfl, fun hrunning => hrunning⟩
      · cases hlabel
    · cases hstep
  | handle a survives => exact absurd rfl (hl a survives)
  | release id =>
    obtain rfl := Option.some.inj hstep
    exact ⟨rfl, rfl, rfl, rfl, rfl, fun hrunning => hrunning⟩

/-- The state behind an event that has been handled. -/
def System.handled (s : System) (reports : List Report) (r : Resources)
    (obs : List Observation) : System where
  server := s.server.advance (reports.map Report.event) (.ok (r, obs))
  kernel := obs.foldl (fun k o => k.observe false o) s.kernel
  reports := reports

/-- The server has stopped in the middle of an event. -/
structure System.Stopped (s t : System) : Prop where
  resources : t.server.resources = s.server.resources
  log : t.server.log = s.server.log
  kernel : t.kernel = s.kernel
  stopped : t.server.phase ≠ .running

/-- A step that handles an event handles the next report. -/
theorem System.Sound.handle_advance {a : Answers} {survives : Bool} (h : s.Sound)
    (hstep : AttributingStep verify s (.handle a survives) t) :
    ∃ report reports, s.reports = report :: reports ∧ s.server.phase = .running ∧
      t.server = s.server.advance (reports.map Report.event)
        (handleEvent verify report.event a s.server.resources) ∧
      t.kernel = (t.server.log.drop s.server.log.length).foldl
        (fun k o => k.observe false o) s.kernel ∧ t.reports = reports := by
  obtain ⟨hstep, hguard⟩ := hstep
  obtain ⟨rfl, -⟩ := hguard a survives rfl
  obtain ⟨server, hserver, rfl⟩ := Option.map_eq_some_iff.mp hstep
  rcases Server.step_cases verify hserver with ⟨hl, -⟩ | ⟨events, hl, -⟩ |
    ⟨a', e, events, hl, hrunning, hpending, rfl⟩
  · cases hl
  · cases hl
  · obtain rfl := Label.handle.inj hl
    have hevents := h.pending hrunning
    rw [hpending] at hevents
    obtain ⟨report, reports, hreports, rfl, rfl⟩ := List.map_eq_cons_iff.mp hevents.symm
    exact ⟨report, reports, hreports, hrunning, rfl, rfl, congrArg List.tail hreports⟩

/-- A step that handles an event: it returns, or the server stops. -/
theorem System.Sound.handle_cases {a : Answers} {survives : Bool} (h : s.Sound)
    (hstep : AttributingStep verify s (.handle a survives) t) :
    ∃ report reports, s.reports = report :: reports ∧ s.server.phase = .running ∧
      ((∃ r obs, handleEvent verify report.event a s.server.resources = .ok (r, obs) ∧
        t = s.handled reports r obs) ∨ s.Stopped t) := by
  obtain ⟨report, reports, hreports, hrunning, hserver, hkernel, hrest⟩ := h.handle_advance hstep
  refine ⟨report, reports, hreports, hrunning, ?_⟩
  obtain ⟨server, kernel, rest⟩ := t
  dsimp only at hserver hkernel hrest
  subst hserver hkernel hrest
  cases hevent : handleEvent verify report.event a s.server.resources with
  | ok p =>
    obtain ⟨r, obs⟩ := p
    refine Or.inl ⟨r, obs, rfl, ?_⟩
    simp only [Server.advance, List.drop_left, System.handled]
  | error stop =>
    have hkernel : (s.server.log.drop s.server.log.length).foldl
        (fun k o => k.observe false o) s.kernel = s.kernel := by
      rw [List.drop_length]
      rfl
    cases stop with
    | code reason => exact Or.inr ⟨rfl, rfl, hkernel, fun hrunning => by cases hrunning⟩
    | fault fault => exact Or.inr ⟨rfl, rfl, hkernel, fun hrunning => by cases hrunning⟩

end Steps

end X509Server
