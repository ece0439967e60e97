import X509Server.Analysis.BufferSpec
import X509Server.Analysis.OutputSpec
import X509Server.Analysis.SessionSpec
import X509Server.Interface.RoundTrip

/-!
# From gen_sig to the shell

What `gen_sig` writes is a signature, a newline and a script, however its writes are cut
(`genSigOutput_eq`).  Whatever pieces these bytes come out of `recv` in, they are in the buffer
when the connection is terminated (`Feeds.recvLoop_eq`, `Underway.step`), and there the
decision finds the script.
-/

set_option autoImplicit false

namespace X509Server

open Checked Runs

/-! ## Writing -/

/-- `gen_sig` writes the signature, a newline and the script. -/
theorem genSigOutput_eq {sig script message : Bytes} {writes : List WriteResult}
    (hwrites : ∀ w ∈ writes, w.Takes)
    (h : genSigOutput sig script writes = some (true, message)) :
    message = sig ++ 10 :: script := by
  obtain ⟨used, rest, rfl, hfinishes⟩ := finishes_of_genSigOutput h
  apply hfinishes.output_eq
  intro w hw
  exact hwrites w (List.mem_append_left _ hw)

/-! ## Receiving -/

section Receiving

variable {conn : Connection} {sofar stream stream' : Bytes}

/-- A stream that stays below the limit is received without loss. -/
theorem Feeds.recvLoop_eq {results : List RecvResult} (h : Feeds conn stream results stream')
    (hrepresents : Represents (some sofar) conn) (hopen : 0 < conn.fd)
    (hsize : (sofar ++ stream).length < maxScriptSize) :
    ∃ reception, recvLoop results conn = .ok reception ∧ reception.dropped = false ∧
      reception.chunks.flatten ++ stream' = stream := by
  induction h generalizing sofar with
  | waits conn stream => exact ⟨⟨conn, false, []⟩, rfl, rfl, rfl⟩
  | again conn stream results => exact ⟨⟨conn, false, []⟩, rfl, rfl, rfl⟩
  | ended conn results =>
    have hroom := Nat.lt_min.mp (hrepresents.room hopen)
    unfold recvLoop
    rw [usub_eq (by omega), ok_bind]
    dsimp only
    rw [if_pos List.take_nil]
    exact ⟨⟨conn, false, []⟩, rfl, rfl, rfl⟩
  | @arrived conn available behind results stream' some_arrived rest ih =>
    have hroom := Nat.lt_min.mp (hrepresents.room hopen)
    have hallocated := hrepresents.allocated hopen
    have hsofar : conn.bufSize = sofar.length := by
      rw [← conn.contents_length hallocated, Option.some.inj (hrepresents.contents hopen)]
    generalize hchunk : available.take (conn.bufCap - conn.bufSize) = chunk at rest ih
    have hpieces : chunk ++ available.drop (conn.bufCap - conn.bufSize) = available := by
      rw [← hchunk, List.take_append_drop]
    have hfits : conn.bufSize + chunk.length ≤ conn.bufCap := by
      rw [← hchunk]
      have := List.length_take_le (conn.bufCap - conn.bufSize) available
      omega
    have hfirst : chunk ≠ [] := by
      rw [← hchunk]
      intro hnil
      rw [List.take_eq_nil_iff] at hnil
      rcases hnil with hnil | hnil
      · omega
      · exact some_arrived hnil
    have hlength : (sofar ++ chunk ++ (available.drop (conn.bufCap - conn.bufSize) ++
        behind)).length < maxScriptSize := by
      rw [List.append_assoc, ← List.append_assoc chunk, hpieces]
      exact hsize
    have hsmall : conn.bufSize + chunk.length < maxScriptSize := by
      simp only [List.length_append] at hlength
      omega
    have hkept : ¬ (conn.append chunk).bufSize ≥ maxScriptSize := by
      change ¬ conn.bufSize + chunk.length ≥ maxScriptSize
      omega
    have hnext : Represents (some (sofar ++ chunk)) (conn.append chunk).grow :=
      hrepresents.append hopen hfits hkept
    have hfd : 0 < (conn.append chunk).grow.fd := by
      rw [Connection.grow_fd]
      exact hopen
    obtain ⟨reception, hloop, hdropped, hflatten⟩ := ih hnext hfd hlength
    refine ⟨⟨reception.conn, reception.dropped, chunk :: reception.chunks⟩, ?_, hdropped, ?_⟩
    · have hpresent : ¬ conn.buf.isNone = true := by
        rw [← Option.not_isSome, hallocated]
        exact Bool.false_ne_true
      unfold recvLoop
      rw [usub_eq (by omega), ok_bind]
      dsimp only
      rw [hchunk, if_neg hfirst, if_neg hpresent, if_neg hkept, hloop, ok_bind]
    · rw [List.flatten_cons, List.append_assoc, hflatten, ← List.append_assoc, hpieces]

/-- What the first part of an event leaves of a connection and a stream. -/
theorem Received.handleReceive_eq {slot : ℕ} {e : Event} {a : Answers} {r : Resources}
    (h : Received conn e a stream stream') (hconn : r.conns[slot]? = some conn)
    (hrepresents : Represents (some sofar) conn) (hopen : 0 < conn.fd)
    (hsize : (sofar ++ stream).length < maxScriptSize) :
    ∃ (conn' : Connection) (chunks : List Bytes), handleReceive slot e a r =
        .ok ({ r with conns := r.conns.set slot conn' }, chunks.map (.received slot)) ∧
      0 < conn'.fd ∧ Represents (some (sofar ++ chunks.flatten)) conn' ∧
      chunks.flatten ++ stream' = stream := by
  unfold Received at h
  unfold handleReceive connAt
  by_cases hin : e.epollin = true
  · rw [if_pos hin] at h
    obtain ⟨reception, hloop, hdropped, hstream⟩ := h.recvLoop_eq hrepresents hopen hsize
    obtain ⟨reception', hloop', hkept⟩ := recvLoop_represents a.recvs hrepresents hopen
    obtain rfl := Except.ok.inj (hloop.symm.trans hloop')
    obtain ⟨-, hfd, -⟩ :=
      (recvLoop_yields (E := fun _ => False) a slot a.recvs conn hopen).of_ok hloop
    refine ⟨reception.conn, reception.chunks, ?_, by rw [hfd]; exact hopen, hkept hdropped,
      hstream⟩
    rw [if_pos hin, hconn, ok_bind, hloop, ok_bind]
    dsimp only
    rw [hdropped, if_neg Bool.false_ne_true]
  · rw [if_neg hin] at h
    subst h
    refine ⟨conn, [], ?_, hopen, by simpa using hrepresents, rfl⟩
    obtain ⟨hlt, rfl⟩ := List.getElem?_eq_some_iff.mp hconn
    rw [if_neg hin, List.set_getElem_self]
    rfl

end Receiving

/-! ## Every state of a run -/

section Reached

variable {verify : PubKey → Bytes → Bytes → Bool}

/-- Every connection in use is counted, whatever the answers are. -/
structure Accounted (r : Resources) : Prop where
  length_eq : r.conns.length = maxConcurrency
  counted : openCount r.conns ≤ r.connsTotal

theorem Accounted.handled {a : Answers} (ha : a.accept ≠ 0) {r r' : Resources}
    {obs : List Observation} (h : Accounted r) (hhandled : Handled a r.conns r'.conns obs)
    (hbalanced : Balanced a r r' obs) : Accounted r' where
  length_eq := hhandled.length_eq.trans h.length_eq
  counted := by
    have hcount := hhandled.count ha
    have htotal := hbalanced ha
    have := h.counted
    omega

/-- A connection that gets the descriptor 0 is counted but not in use. -/
theorem register_zero {E : Exit → Prop} {a : Answers} (ha : a.accept = 0) (r : Resources) :
    Yields (r.register a) (fun p => openCount p.1.conns = openCount r.conns ∧
      p.1.connsTotal = r.connsTotal + 1) E := by
  unfold Resources.register
  dsimp only
  cases hfind : r.conns.findIdx? fun conn => decide (conn.fd ≤ 0) with
  | none => exact (assertThat_yields _).bind fun _ _ => ⟨rfl, rfl⟩
  | some i =>
    refine (connAt_yields r.conns i).bind fun conn hconn => ?_
    obtain ⟨hlt, hunused, -⟩ := List.findIdx?_eq_some_iff_getElem.mp hfind
    have hfd : ¬ 0 < conn.fd := by
      rw [List.getElem?_eq_getElem hlt] at hconn
      obtain rfl := Option.some.inj hconn
      have := of_decide_eq_true hunused
      omega
    apply Yields.ite
    · intro _
      exact (assertThat_yields _).bind fun _ _ => ⟨rfl, rfl⟩
    · intro _
      have hset := openCount_set hconn (conn.attach a)
      have hclosed : ¬ 0 < (conn.attach a).fd := by
        rw [conn.attach_fd]
        omega
      rw [if_neg hfd, if_neg hclosed] at hset
      exact ⟨hset, rfl⟩

theorem handleAccept_zero {E : Exit → Prop} {a : Answers} (ha : a.accept = 0) {r : Resources}
    (h : Accounted r) :
    Yields (handleAccept a r) (fun p => openCount p.1.conns ≤ p.1.connsTotal) E := by
  unfold handleAccept
  refine (evict_yields a.registering r).bind fun p hp => ?_
  have hevicted := h.handled Int.one_ne_zero hp.handled hp.total
  apply Yields.ite
  · intro _
    exact hevicted.counted
  · intro _
    refine (register_zero ha p.1).bind fun q hq => ?_
    have hcounted := hevicted.counted
    change openCount q.1.conns ≤ q.1.connsTotal
    omega

/-- Handling an event keeps the connections in use accounted for. -/
theorem Accounted.handleEvent {e : Event} {a : Answers} {r r' : Resources}
    {obs : List Observation} (h : Accounted r)
    (hevent : handleEvent verify e a r = .ok (r', obs)) : Accounted r' := by
  by_cases hlistener : e.data = maxInt32
  · obtain ⟨hhandled, hbalanced, -⟩ := (handleEvent_yields verify a e r).of_ok hevent
    by_cases ha : a.accept = 0
    · refine ⟨hhandled.length_eq.trans h.length_eq, ?_⟩
      unfold X509Server.handleEvent at hevent
      rw [if_pos hlistener] at hevent
      exact (handleAccept_zero (E := fun _ => True) ha h).of_ok hevent
    · exact h.handled ha hhandled hbalanced
  · rw [handleEvent_registering hlistener] at hevent
    obtain ⟨hhandled, hbalanced, -⟩ := (handleEvent_yields verify a.registering e r).of_ok hevent
    exact h.handled Int.one_ne_zero hhandled hbalanced

/-- What the delivery of a message relies on in every state of a run. -/
structure Reached (verify : PubKey → Bytes → Bytes → Bool) (s : Server) : Prop where
  sessions : Sessions verify (fun _ => True) s
  fitting : Fitting s
  accounted : Accounted s.resources

theorem reached_start {store : KeyStore} (hs : store.keysSize ≤ store.keys.length) :
    Reached verify (Server.start store) where
  sessions := .start hs fun _ _ => trivial
  fitting := fitting_start store
  accounted := by
    have htallied := tallied_start store
    exact ⟨htallied.length_eq, Nat.le_of_eq htallied.total.symm⟩

theorem Reached.step {s t : Server} {l : Label} (h : Reached verify s)
    (hstep : s.step verify l = some t) : Reached verify t where
  sessions := h.sessions.step hstep
  fitting := h.fitting.step verify hstep
  accounted := by
    rcases Server.step_cases verify hstep with ⟨-, rfl⟩ | ⟨events, -, -, -, rfl⟩ |
      ⟨a, e, events, rfl, -, -, rfl⟩
    · exact h.accounted
    · exact h.accounted
    · cases hevent : X509Server.handleEvent verify e a s.resources with
      | ok p => exact h.accounted.handleEvent hevent
      | error stop => cases stop <;> exact h.accounted

/-- An open connection has a slot, is counted, and is represented by its buffer. -/
theorem Reached.represents {s : Server} (h : Reached verify s) {slot : ℕ} {conn : Connection}
    (hconn : s.resources.conns[slot]? = some conn) :
    Represents (received slot s.log) conn :=
  (h.fitting.fits slot conn hconn).represents
    (h.fitting.sized conn (List.mem_of_getElem? hconn))

theorem Reached.slot_lt {s : Server} (h : Reached verify s) {slot : ℕ} {conn : Connection}
    (hconn : s.resources.conns[slot]? = some conn) : slot < maxConcurrency := by
  rw [← h.accounted.length_eq]
  exact (List.getElem?_eq_some_iff.mp hconn).1

theorem Reached.total_pos {s : Server} (h : Reached verify s) {slot : ℕ} {conn : Connection}
    (hconn : s.resources.conns[slot]? = some conn) (hopen : 0 < conn.fd) :
    0 < s.resources.connsTotal := by
  have hpos : 0 < openCount s.resources.conns :=
    List.countP_pos_iff.mpr ⟨conn, List.mem_of_getElem? hconn, by simpa using hopen⟩
  exact Nat.lt_of_lt_of_le hpos h.accounted.counted

end Reached

/-! ## The scripts of a slot -/

section Scripts

variable {slot : ℕ}

theorem scriptsOf_append (log obs : List Observation) :
    scriptsOf slot (log ++ obs) = scriptsOf slot log ++ scriptsOf slot obs := by
  simp [scriptsOf, scriptsExecuted]

/-- Observations about other slots. -/
theorem scriptsOf_of_ne {obs : List Observation} (h : ∀ o ∈ obs, o.slot ≠ slot) :
    scriptsOf slot obs = [] := by
  have hnone : obs.filter (fun o => o.slot = slot) = [] :=
    List.filter_eq_nil_iff.mpr fun o ho => by simpa using h o ho
  rw [scriptsOf, hnone]
  rfl

theorem received_of_ne {log obs : List Observation} (h : ∀ o ∈ obs, o.slot ≠ slot) :
    received slot (log ++ obs) = received slot log := by
  have hnone : obs.filter (fun o => o.slot = slot) = [] :=
    List.filter_eq_nil_iff.mpr fun o ho => by simpa using h o ho
  rw [received_append, hnone]
  rfl

theorem scriptsOf_chunks (chunks : List Bytes) :
    scriptsOf slot (chunks.map (Observation.received slot)) = [] := by
  simp [scriptsOf, scriptsExecuted, List.filter_map]

/-- The chunks of an event come behind what has been received. -/
theorem received_chunks {log : List Observation} {sofar : Bytes} (chunks : List Bytes)
    (h : received slot log = some sofar) :
    received slot (log ++ chunks.map (Observation.received slot)) =
      some (sofar ++ chunks.flatten) := by
  induction chunks generalizing log sofar with
  | nil => simpa using h
  | cons chunk chunks ih =>
    have hfirst : received slot (log ++ [.received slot chunk]) = some (sofar ++ chunk) := by
      simp [received_append, h, observe, Observation.slot]
    simpa using ih hfirst

end Scripts

/-! ## Events -/

section Events

variable {verify : PubKey → Bytes → Bytes → Bool} {slot : ℕ} {e : Event} {a : Answers}
  {r r' : Resources} {obs : List Observation} {conn : Connection} {sofar stream stream' : Bytes}

/-- An event elsewhere is not about the slot, unless its connection is given up. -/
theorem handleEvent_elsewhere (hdata : e.data ≠ slot)
    (hkept : e.data = maxInt32 → ¬ r.Evicts slot) (hconn : r.conns[slot]? = some conn)
    (hopen : 0 < conn.fd) (hevent : handleEvent verify e a r = .ok (r', obs)) :
    ∀ o ∈ obs, o.slot ≠ slot := by
  intro o ho heq
  rcases handleEvent_about verify hevent with ⟨hlistener, habout⟩ | ⟨-, habout⟩
  · rcases habout o ho with hevicts | ⟨conn', hconn', hfd⟩
    · rw [heq] at hevicts
      exact hkept hlistener hevicts
    · rw [heq, hconn] at hconn'
      obtain rfl := Option.some.inj hconn'
      omega
  · exact hdata ((habout o ho).symm.trans heq)

theorem handleError_closed (hconn : r.conns[slot]? = some conn) (h : ¬ 0 < conn.fd) :
    handleError slot e r = .ok (r, []) := by
  unfold handleError connAt
  rw [hconn, ok_bind, if_neg fun herror => h herror.1]

theorem handleEvent_conn (h : e.data < maxConcurrency) :
    handleEvent verify e a r = handleConn verify e.data e a r := by
  have hlistener : e.data ≠ maxInt32 := by
    have hlt := maxConcurrency_lt
    omega
  unfold handleEvent
  rw [if_neg hlistener, if_pos h]

variable (verify) in
/-- An event that is neither an end nor an error only receives. -/
theorem handleConn_receives (hconn : r.conns[slot]? = some conn) (hopen : 0 < conn.fd)
    (hquiet : (e.epollrdhup || e.epollhup || e.epollerr) = false)
    (hrepresents : Represents (some sofar) conn)
    (hsize : (sofar ++ stream).length < maxScriptSize) (h : Received conn e a stream stream') :
    ∃ (conn' : Connection) (chunks : List Bytes), handleConn verify slot e a r =
        .ok ({ r with conns := r.conns.set slot conn' }, chunks.map (.received slot)) ∧
      0 < conn'.fd ∧ chunks.flatten ++ stream' = stream := by
  obtain ⟨conn', chunks, hreceive, hopen', -, hstream⟩ :=
    h.handleReceive_eq hconn hrepresents hopen hsize
  rw [Bool.or_eq_false_iff] at hquiet
  have hat : connAt (r.conns.set slot conn') slot = (.ok conn' : Served Connection) := by
    have hlt := (List.getElem?_eq_some_iff.mp hconn).1
    unfold connAt
    rw [List.getElem?_set_self hlt]
  refine ⟨conn', chunks, ?_, hopen', hstream⟩
  unfold handleConn
  unfold connAt
  rw [hconn, ok_bind, assertThat_eq (by simpa using hopen), ok_bind, hreceive, ok_bind]
  unfold handleTermination handleError
  simp only [hat, ok_bind, hquiet.1, hquiet.2, Bool.false_eq_true, and_false, if_false,
    List.append_nil]

variable (verify) in
/-- The end of a connection whose message one script is accepted for. -/
theorem handleTermination_executes {key : PubKey} {script : Bytes}
    (hs : r.keysSize ≤ r.keys.length) (hconn : r.conns[slot]? = some conn) (hopen : 0 < conn.fd)
    (hended : (e.epollrdhup || e.epollhup) = true) (htotal : 0 < r.connsTotal)
    (hkey : key ∈ r.loaded) (hvalid : a.time ≤ key.expiry)
    (haccepts : key.Accepts verify conn.contents script)
    (hother : ∀ key' ∈ r.loaded, a.time ≤ key'.expiry → ∀ script',
      key'.Accepts verify conn.contents script' → script' = script) :
    ∃ r', handleTermination verify slot e a r =
        .ok (r', decisionLog slot a.time (r.scriptN + 1) (some script)) ∧
      ∃ conn', r'.conns[slot]? = some conn' ∧ ¬ 0 < conn'.fd := by
  have hauthentic : Authentic verify a.time conn.contents r.loaded :=
    (authentic_iff verify _).mpr ⟨key, hkey, hvalid, script, haccepts⟩
  obtain ⟨keys, script', hauth⟩ := (authenticate_exact verify hs).mpr hauthentic
  obtain ⟨-, -, hscript⟩ := Safe.of_ok (authenticate_safe verify hs) hauth
  obtain ⟨key', hmem, hvalid', haccepts'⟩ := hscript script' rfl
  rw [PubKey.authenticate_eq_some_iff] at haccepts'
  obtain rfl := hother key' hmem hvalid' script' haccepts'
  have hlt := (List.getElem?_eq_some_iff.mp hconn).1
  rw [handleTermination_eq verify hconn hopen hended htotal, hauth, ok_bind]
  exact ⟨_, rfl, _, List.getElem?_set_self hlt, Int.lt_irrefl 0⟩

variable (verify) in
/-- The event in which the last bytes are received and the end of the connection is seen. -/
theorem handleConn_executes {key : PubKey} {script : Bytes} (hs : r.keysSize ≤ r.keys.length)
    (hconn : r.conns[slot]? = some conn) (hopen : 0 < conn.fd)
    (hended : (e.epollrdhup || e.epollhup) = true) (htotal : 0 < r.connsTotal)
    (hrepresents : Represents (some sofar) conn)
    (hsize : (sofar ++ stream).length < maxScriptSize) (hfed : Received conn e a stream [])
    (hkey : key ∈ r.loaded) (hvalid : a.time ≤ key.expiry)
    (haccepts : key.Accepts verify (sofar ++ stream) script)
    (hother : ∀ key' ∈ r.loaded, a.time ≤ key'.expiry → ∀ script',
      key'.Accepts verify (sofar ++ stream) script' → script' = script) :
    ∃ (r' : Resources) (chunks : List Bytes), handleConn verify slot e a r =
      .ok (r', chunks.map (.received slot) ++
        decisionLog slot a.time (r.scriptN + 1) (some script)) := by
  obtain ⟨conn', chunks, hreceive, hopen', hrepresents', hstream⟩ :=
    hfed.handleReceive_eq hconn hrepresents hopen hsize
  have hcontents : conn'.contents = sofar ++ stream := by
    have hall := Option.some.inj (hrepresents'.contents hopen')
    rw [List.append_nil] at hstream
    rw [← hall, hstream]
  have hlt := (List.getElem?_eq_some_iff.mp hconn).1
  rw [← hcontents] at haccepts hother
  obtain ⟨r', htermination, conn'', hconn'', hclosed⟩ :=
    handleTermination_executes verify (r := { r with conns := r.conns.set slot conn' }) hs
      (List.getElem?_set_self hlt) hopen' hended htotal hkey hvalid haccepts hother
  refine ⟨r', chunks, ?_⟩
  unfold handleConn connAt
  rw [hconn, ok_bind, assertThat_eq (by simpa using hopen), ok_bind, hreceive, ok_bind]
  dsimp only
  rw [htermination, ok_bind]
  dsimp only
  rw [handleError_closed hconn'' hclosed, ok_bind, List.append_nil]

end Events

/-! ## Delivery -/

section Delivery

variable {verify : PubKey → Bytes → Bytes → Bool} {slot n : ℕ} {message : Bytes}

/-- A message is on its way to the connection in a slot: a part of it has been received, the
rest is still to come, and nothing has been executed since the log had length `n`. -/
structure Underway (verify : PubKey → Bytes → Bytes → Bool) (slot n : ℕ) (message : Bytes)
    (p : Server × Bytes) : Prop where
  reached : Reached verify p.1
  arrived : ∃ conn sofar, p.1.resources.conns[slot]? = some conn ∧ 0 < conn.fd ∧
    received slot p.1.log = some sofar ∧ sofar ++ p.2 = message
  logged : n ≤ p.1.log.length
  unexecuted : scriptsOf slot (p.1.log.drop n) = []

/-- A change to anything but the connections and the log. -/
theorem Underway.of_eq {p q : Server × Bytes} (h : Underway verify slot n message p)
    (hreached : Reached verify q.1) (hconns : q.1.resources.conns = p.1.resources.conns)
    (hlog : q.1.log = p.1.log) (hstream : q.2 = p.2) : Underway verify slot n message q where
  reached := hreached
  arrived := by
    rw [hconns, hlog, hstream]
    exact h.arrived
  logged := by
    rw [hlog]
    exact h.logged
  unexecuted := by
    rw [hlog]
    exact h.unexecuted

/-- The scripts of the slot behind new observations. -/
theorem Underway.scripts_eq {p : Server × Bytes} (h : Underway verify slot n message p)
    (obs : List Observation) :
    scriptsOf slot ((p.1.log ++ obs).drop n) = scriptsOf slot obs := by
  rw [List.drop_append_of_le_length h.logged, scriptsOf_append, h.unexecuted,
    List.nil_append]

section Steps

variable {s : Server} {e : Event} {events : List Event} {a : Answers} {stream stream' : Bytes}
  {conn : Connection}

/-- The connection that is sent the message. -/
theorem Underway.represents (h : Underway verify slot n message (s, stream))
    (hconn : s.resources.conns[slot]? = some conn) :
    ∃ sofar, 0 < conn.fd ∧ received slot s.log = some sofar ∧ sofar ++ stream = message ∧
      Represents (some sofar) conn := by
  obtain ⟨conn', sofar, hconn', hopen, hreceived, hmessage⟩ := h.arrived
  obtain rfl := Option.some.inj (hconn'.symm.trans hconn)
  have hrepresents := h.reached.represents hconn
  dsimp only at hreceived hmessage hrepresents
  rw [hreceived] at hrepresents
  exact ⟨sofar, hopen, hreceived, hmessage, hrepresents⟩

/-- Its own events are those of a connection. -/
theorem Underway.handleEvent_eq (h : Underway verify slot n message (s, stream))
    (hconn : s.resources.conns[slot]? = some conn) (hdata : e.data = slot) :
    handleEvent verify e a s.resources = handleConn verify slot e a s.resources := by
  have hslot := h.reached.slot_lt hconn
  rw [handleEvent_conn (by rw [hdata]; exact hslot), hdata]

/-- The connection's own event takes the next bytes of the stream. -/
theorem Underway.receives (hsize : message.length < maxScriptSize)
    (h : Underway verify slot n message (s, stream))
    (hreached : Reached verify (s.advance events (handleEvent verify e a s.resources)))
    (hdata : e.data = slot) (hquiet : (e.epollrdhup || e.epollhup || e.epollerr) = false)
    (hconn : s.resources.conns[slot]? = some conn) (hfed : Received conn e a stream stream') :
    Underway verify slot n message
      (s.advance events (handleEvent verify e a s.resources), stream') := by
  obtain ⟨sofar, hopen, hreceived, rfl, hrepresents⟩ := h.represents hconn
  obtain ⟨conn', chunks, hevent, hopen', hstream⟩ :=
    handleConn_receives verify hconn hopen hquiet hrepresents hsize hfed
  rw [h.handleEvent_eq hconn hdata, hevent] at hreached ⊢
  have hlt := (List.getElem?_eq_some_iff.mp hconn).1
  have hlogged := h.logged
  dsimp only at hlogged
  refine ⟨hreached, ⟨conn', sofar ++ chunks.flatten, List.getElem?_set_self hlt, hopen',
    received_chunks chunks hreceived, ?_⟩, ?_, ?_⟩
  · rw [List.append_assoc, hstream]
  · change n ≤ (s.log ++ chunks.map (Observation.received slot)).length
    rw [List.length_append]
    omega
  · exact (h.scripts_eq _).trans (scriptsOf_chunks chunks)

/-- An event elsewhere leaves the connection alone. -/
theorem Underway.passes (h : Underway verify slot n message (s, stream))
    (hreached : Reached verify (s.advance events (handleEvent verify e a s.resources)))
    (hdata : e.data ≠ slot) (hkept : e.data = maxInt32 → ¬ s.resources.Evicts slot) :
    Underway verify slot n message
      (s.advance events (handleEvent verify e a s.resources), stream) := by
  cases hevent : handleEvent verify e a s.resources with
  | error stop =>
    rw [hevent] at hreached
    cases stop with
    | code reason => exact h.of_eq hreached rfl rfl rfl
    | fault fault => exact h.of_eq hreached rfl rfl rfl
  | ok p =>
    rw [hevent] at hreached
    obtain ⟨r, obs⟩ := p
    obtain ⟨conn, sofar, hconn, hopen, hreceived, hmessage⟩ := h.arrived
    have hlogged := h.logged
    dsimp only at hconn hreceived hmessage hlogged
    have hne := handleEvent_elsewhere hdata hkept hconn hopen hevent
    have hhandled := ((handleEvent_yields verify a e s.resources).of_ok hevent).1
    refine ⟨hreached, ⟨conn, sofar, (hhandled.same hne).trans hconn, hopen,
      (received_of_ne hne).trans hreceived, hmessage⟩, ?_, ?_⟩
    · change n ≤ (s.log ++ obs).length
      rw [List.length_append]
      omega
    · exact (h.scripts_eq obs).trans (scriptsOf_of_ne hne)

end Steps

/-- A step keeps a message on its way. -/
theorem Underway.step (hsize : message.length < maxScriptSize) {p q : Server × Bytes} {l : Label}
    (h : Underway verify slot n message p) (hstep : Delivering verify slot p l q) :
    Underway verify slot n message q := by
  obtain ⟨s, stream⟩ := p
  obtain ⟨t, stream'⟩ := q
  have hreached : Reached verify t := h.reached.step hstep.step
  rcases Server.step_cases verify hstep.step with ⟨rfl, hq⟩ | ⟨events, rfl, -, -, hq⟩ |
    ⟨a, e, events, rfl, -, hpending, hq⟩
  · have hstream : stream' = stream := hstep.unfed fun a e events hlabel => nomatch hlabel
    dsimp only at hq
    subst hq
    exact h.of_eq hreached rfl rfl hstream
  · have hstream : stream' = stream := hstep.unfed fun a e events hlabel => nomatch hlabel
    dsimp only at hq
    subst hq
    exact h.of_eq hreached rfl rfl hstream
  · dsimp only at hpending hq
    subst hq
    by_cases hdata : e.data = slot
    · obtain ⟨hquiet, conn, hconn, hfed⟩ := hstep.fed a e events rfl hpending hdata
      exact h.receives hsize hreached hdata hquiet hconn hfed
    · have hstream : stream' = stream := by
        apply hstep.unfed
        rintro a' e' events' ⟨⟩ hpending'
        obtain ⟨rfl, -⟩ := List.cons.inj (hpending.symm.trans hpending')
        exact hdata
      rw [hstream]
      exact h.passes hreached hdata (hstep.kept a e events rfl hpending)

/-- With its end the connection is closed, and the script has been executed. -/
theorem Underway.ends (hsize : message.length < maxScriptSize) {s : Server} {stream : Bytes}
    (h : Underway verify slot n message (s, stream)) {a : Answers} {e : Event}
    {events : List Event} {conn : Connection} (hdata : e.data = slot)
    (hended : (e.epollrdhup || e.epollhup) = true)
    (hconn : s.resources.conns[slot]? = some conn) (hfed : Received conn e a stream [])
    {key : PubKey} {script : Bytes} (hkey : key ∈ s.resources.loaded)
    (hvalid : a.time ≤ key.expiry) (haccepts : key.Accepts verify message script)
    (hother : ∀ key' ∈ s.resources.loaded, a.time ≤ key'.expiry → ∀ script',
      key'.Accepts verify message script' → script' = script) :
    let t := s.advance events (handleEvent verify e a s.resources)
    scriptsOf slot (t.log.drop n) = [script] ∧ received slot t.log = none := by
  obtain ⟨sofar, hopen, hreceived, rfl, hrepresents⟩ := h.represents hconn
  obtain ⟨r, chunks, hevent⟩ := handleConn_executes verify h.reached.sessions.size_le hconn hopen
    hended (h.reached.total_pos hconn hopen) hrepresents hsize hfed hkey hvalid haccepts hother
  rw [h.handleEvent_eq hconn hdata, hevent]
  constructor
  · refine (h.scripts_eq _).trans ?_
    rw [scriptsOf_append, scriptsOf_chunks]
    simp [scriptsOf, scriptsExecuted, decisionLog, Observation.slot]
  · change received slot (s.log ++ (_ ++ _)) = none
    rw [← List.append_assoc, received_append]
    simp [decisionLog, observe, Observation.slot]

end Delivery

/-- What `gen_sig` writes for a script comes back: once the connection that was sent it is
terminated, the server has executed the script and nothing else for it, if one of its keys
accepts the signature and no key accepts the message for another script. -/
theorem round_trip (verify : PubKey → Bytes → Bytes → Bool) (store : KeyStore)
    (hs : store.keysSize ≤ store.keys.length) (labels₀ : List Label) (s₀ : Server)
    (hrun₀ : Run (fun s l t => s.step verify l = some t) (Server.start store) labels₀ s₀)
    (slot : ℕ) (conn₀ : Connection) (hconn₀ : s₀.resources.conns[slot]? = some conn₀)
    (hopen₀ : 0 < conn₀.fd) (hempty₀ : received slot s₀.log = some [])
    (sig script message : Bytes) (writes : List WriteResult)
    (hwrites : ∀ w ∈ writes, w.Takes)
    (hgen : genSigOutput sig script writes = some (true, message))
    (hsize : message.length < maxScriptSize)
    (labels : List Label) (s : Server) (stream : Bytes)
    (hrun : Run (Delivering verify slot) (s₀, message) labels (s, stream))
    (a : Answers) (e : Event) (events : List Event) (conn : Connection)
    (hrunning : s.phase = .running) (hpending : s.pending = e :: events) (hdata : e.data = slot)
    (hended : (e.epollrdhup || e.epollhup) = true)
    (hconn : s.resources.conns[slot]? = some conn) (hfed : Received conn e a stream [])
    (key : PubKey) (hkey : key ∈ s.resources.loaded) (hvalid : a.time ≤ key.expiry)
    (hsig : sig.length = key.expSigSize) (hverify : verify key script sig = true)
    (hother : ∀ key' ∈ s.resources.loaded, a.time ≤ key'.expiry → ∀ script',
      key'.Accepts verify message script' → script' = script) :
    ∃ t, s.step verify (.handle a) = some t ∧
      scriptsOf slot (t.log.drop s₀.log.length) = [script] ∧ received slot t.log = none := by
  have hmessage := genSigOutput_eq hwrites hgen
  have hreached : Reached verify s₀ :=
    hrun₀.invariant (fun s l t h hstep => h.step hstep) (reached_start hs)
  have hstart : Underway verify slot s₀.log.length message (s₀, message) := by
    refine ⟨hreached, ⟨conn₀, [], hconn₀, hopen₀, hempty₀, rfl⟩, Nat.le_refl _, ?_⟩
    rw [List.drop_length]
    rfl
  have hunderway := hrun.invariant (fun p l q h hstep => h.step hsize hstep) hstart
  refine ⟨s.advance events (handleEvent verify e a s.resources), ?_, ?_⟩
  · simp only [Server.step, hpending, hrunning, if_true]
  exact hunderway.ends hsize hdata hended hconn hfed hkey hvalid
    ⟨sig, hmessage, hsig, hverify⟩ hother

/-- The script `*\n*` with the signature of a key of size 3, in front of which there is a key
of size 1 that finds a newline where it looks for one. -/
theorem round_trip_newlines :
    ∃ s t : Server, received 0 s.log = some [] ∧
      scriptsOf 0 (t.log.drop s.log.length) = [[42, 10, 42]] ∧ received 0 t.log = none := by
  let verify : PubKey → Bytes → Bytes → Bool := fun _ script sig =>
    decide (sig = [7, 10, 7] ∧ script = [42, 10, 42])
  let short : PubKey := { PubKey.unwritten with expiry := 5, expSigSize := 1 }
  let key : PubKey := { PubKey.unwritten with expiry := 5, expSigSize := 3 }
  let e : Event := ⟨0, true, true, false, false⟩
  let a : Answers := { quietAnswers 1 with
    recvs := [.data [7, 10], .data [7, 10, 42, 10, 42], .data []] }
  have hfacts : (List.foldlM (Server.step verify) (Server.start ⟨[short, key], 2⟩)
      [.wait [⟨maxInt32, true, false, false, false⟩], .handle (quietAnswers 0)]).map
        (fun s => decide (s.phase = .running ∧ s.pending = [] ∧ received 0 s.log = some [] ∧
          key ∈ s.resources.loaded ∧
          (s.resources.conns[0]?.map fun conn => (conn.fd, conn.bufSize, conn.bufCap)) =
            some (5, 0, 1024))) = some true := by
    decide +kernel
  obtain ⟨s, hrun, hs⟩ := Option.map_eq_some_iff.mp hfacts
  obtain ⟨hrunning, hpending, hreceived, hkey, hfields⟩ := of_decide_eq_true hs
  obtain ⟨⟨fd, openTime, size, cap, buf⟩, hconn, hfields⟩ := Option.map_eq_some_iff.mp hfields
  obtain ⟨rfl, rfl, rfl⟩ : fd = 5 ∧ size = 0 ∧ cap = 1024 := by simpa using hfields
  have hstep : s.step verify (.wait [e]) = some { s with pending := [e] } := by
    simp only [Server.step, hrunning, hpending]
    rfl
  have hwait : Delivering verify 0 (s, [7, 10, 7, 10, 42, 10, 42]) (.wait [e])
      ({ s with pending := [e] }, [7, 10, 7, 10, 42, 10, 42]) :=
    ⟨hstep, by rintro _ _ _ ⟨⟩, by rintro _ _ _ ⟨⟩, fun _ => rfl⟩
  have hfed : Received ⟨5, openTime, 0, 1024, buf⟩ e a [7, 10, 7, 10, 42, 10, 42] [] := by
    apply @Feeds.arrived _ [7, 10] [7, 10, 42, 10, 42] _ _ (List.cons_ne_nil _ _)
    apply @Feeds.arrived _ [7, 10, 42, 10, 42] [] _ _ (List.cons_ne_nil _ _)
    exact .ended _ _
  have hopen : (0 : ℤ) < 5 := by decide
  have hother : ∀ key' ∈ s.resources.loaded, a.time ≤ key'.expiry → ∀ script',
      key'.Accepts verify [7, 10, 7, 10, 42, 10, 42] script' → script' = [42, 10, 42] := by
    rintro key' - - script' ⟨sig, -, -, hverify⟩
    exact (of_decide_eq_true hverify).2
  obtain ⟨t, -, hscripts, hclosed⟩ := round_trip verify ⟨[short, key], 2⟩ (Nat.le_refl 2) _ s
    ((run_iff_foldlM (Server.step verify) _ s _).mpr hrun) 0 _ hconn hopen hreceived
    [7, 10, 7] [42, 10, 42] [7, 10, 7, 10, 42, 10, 42] [.wrote 2, .wrote 5, .wrote 1, .wrote 9]
    (by simp [WriteResult.Takes]) (by decide) (by decide) _ _ _ (.single hwait) a e [] _ hrunning
    rfl rfl rfl hconn hfed key hkey (by decide) rfl (by decide) hother
  exact ⟨s, t, hreceived, hscripts, hclosed⟩

end X509Server
