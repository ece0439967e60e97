import X509Server.Analysis.ServerSpec

/-!
# Sessions and connections

A relation between what the log says a slot has received and the connection in that slot
holds along a run if every touch keeps it (`Along.handled`).  `Tracks` is the first of them:
the buffer of an open connection holds exactly what it has received.
-/

set_option autoImplicit false

namespace X509Server

open Runs

/-! ## Buffers -/

/-- A connection and what it has received: an open one has it in its buffer, and a slot that
is not in use has an empty buffer. -/
structure Tracks (session : Option Bytes) (conn : Connection) : Prop where
  contents : 0 < conn.fd → session = some conn.contents
  empty : conn.fd ≤ 0 → conn.bufSize = 0

theorem Connection.contents_length {conn : Connection} (h : conn.buf.isSome = true) :
    conn.contents.length = conn.bufSize := by
  obtain ⟨cells, hcells⟩ := Option.isSome_iff_exists.mp h
  simp [Connection.contents, hcells]

/-- What `recv` writes comes behind what is there. -/
theorem Connection.append_contents {conn : Connection} (h : conn.buf.isSome = true)
    (chunk : Bytes) : (conn.append chunk).contents = conn.contents ++ chunk := by
  obtain ⟨cells, hcells⟩ := Option.isSome_iff_exists.mp h
  simp only [Connection.contents, Connection.append, hcells, Option.map_some, List.range_add,
    List.map_append, List.map_map]
  congr 1
  · refine List.map_congr_left fun j hj => if_neg ?_
    have := List.mem_range.mp hj
    omega
  · refine List.ext_getElem (by simp) fun j hj hj' => ?_
    simp [hj']

theorem Connection.store_contents {conn : Connection} (h : conn.buf.isSome = true)
    (chunk : Bytes) : (conn.store chunk).contents = conn.contents ++ chunk := by
  rw [← conn.append_contents h]
  unfold Connection.store Connection.grow
  split
  · rfl
  · split <;> rfl

theorem Connection.attach_contents {conn : Connection} (a : Answers) (h : conn.bufSize = 0) :
    (conn.attach a).contents = [] := by
  unfold Connection.attach Connection.contents
  cases conn.buf <;> simp [h]

theorem Connection.attach_bufSize {conn : Connection} (a : Answers) (h : conn.bufSize = 0) :
    (conn.attach a).bufSize = 0 := by
  unfold Connection.attach
  cases conn.buf
  · rfl
  · exact h

/-- Every touch of a connection keeps the record of what it has received. -/
theorem Tracks.touch {a : Answers} {conn conn' : Connection} {o : Observation}
    {session : Option Bytes} (h : Tracks session conn) (htouch : Touch a conn o conn') :
    Tracks (observe o.slot session o) conn' := by
  cases htouch with
  | opened slot unused accepted =>
    refine ⟨fun _ => ?_, fun _ => conn.attach_bufSize a (h.empty unused)⟩
    rw [conn.attach_contents a (h.empty unused)]
    exact if_pos rfl
  | received slot chunk inUse allocated room =>
    refine ⟨fun _ => ?_, fun hclosed => ?_⟩
    · rw [conn.store_contents allocated, h.contents inUse]
      exact if_pos rfl
    · rw [conn.store_fd] at hclosed
      omega
  | terminated slot inUse => exact h
  | executed slot script n inUse => exact h
  | closed slot inUse => exact ⟨fun hopen => absurd hopen (by simp), fun _ => rfl⟩

/-! ## Answers -/

/-- Answers that register a connection, and are otherwise as given. -/
def Answers.registering (a : Answers) : Answers := { a with accept := 1, clock := 0 }

/-- The event of a connection does not look at what `accept` and `clock` answer. -/
theorem handleEvent_registering {verify : PubKey → Bytes → Bytes → Bool} {e : Event}
    (h : e.data ≠ maxInt32) (a : Answers) (r : Resources) :
    handleEvent verify e a r = handleEvent verify e a.registering r := by
  unfold handleEvent
  rw [if_neg h, if_neg h]
  rfl

/-- Whatever `accept` answers, it answers something that is not 0 where it is asked. -/
theorem handleEvent_accepting {verify : PubKey → Bytes → Bytes → Bool} {e : Event} {a : Answers}
    {r : Resources} {p : Served (Resources × List Observation)}
    (ha : e.data = maxInt32 → a.accept ≠ 0) (h : handleEvent verify e a r = p) :
    ∃ b : Answers, b.accept ≠ 0 ∧ handleEvent verify e b r = p := by
  by_cases hlistener : e.data = maxInt32
  · exact ⟨a, ha hlistener, h⟩
  · exact ⟨a.registering, Int.one_ne_zero, (handleEvent_registering hlistener a r).symm.trans h⟩

/-! ## Logs -/

theorem observe_of_ne {o : Observation} {i : ℕ} (h : o.slot ≠ i) (session : Option Bytes) :
    observe i session o = session := by
  cases o with
  | opened slot => exact if_neg h
  | received slot chunk => exact if_neg h
  | terminated slot now => rfl
  | executed slot script n => rfl
  | closed slot => exact if_neg h

/-- Only the observations about a slot change its session. -/
theorem received_append (i : ℕ) (log obs : List Observation) :
    received i (log ++ obs) =
      (obs.filter fun o => o.slot = i).foldl (observe i) (received i log) := by
  unfold received
  rw [List.foldl_append]
  generalize log.foldl (observe i) none = session
  induction obs generalizing session with
  | nil => rfl
  | cons o obs ih =>
    by_cases ho : o.slot = i
    · rw [List.filter_cons_of_pos (by simpa using ho), List.foldl_cons, List.foldl_cons]
      exact ih _
    · rw [List.filter_cons_of_neg (by simpa using ho), List.foldl_cons, observe_of_ne ho]
      exact ih session

/-- Every connection is related to what the log says its slot has received. -/
def Along (P : Option Bytes → Connection → Prop) (log : List Observation)
    (conns : List Connection) : Prop :=
  ∀ (i : ℕ) (conn : Connection), conns[i]? = some conn → P (received i log) conn

section Along

variable {P : Option Bytes → Connection → Prop} {a : Answers}

/-- What every touch keeps is kept by a row of observations about one slot. -/
theorem along_run
    (hP : ∀ {session conn o conn'}, P session conn → Touch a conn o conn' →
      P (observe o.slot session o) conn')
    {conn conn' : Connection} {obs : List Observation} {i : ℕ} {session : Option Bytes}
    (h : P session conn) (hslot : ∀ o ∈ obs, o.slot = i) (hrun : Run (Touch a) conn obs conn') :
    P (obs.foldl (observe i) session) conn' := by
  induction hrun generalizing session with
  | nil conn => exact h
  | cons head tail ih =>
    have hfirst := hP h head
    rw [hslot _ (by simp)] at hfirst
    exact ih hfirst fun o ho => hslot o (List.mem_cons_of_mem _ ho)

/-- A handled event keeps what every touch keeps. -/
theorem Along.handled
    (hP : ∀ {session conn o conn'}, P session conn → Touch a conn o conn' →
      P (observe o.slot session o) conn')
    {log obs : List Observation} {conns conns' : List Connection} (h : Along P log conns)
    (hhandled : Handled a conns conns' obs) : Along P (log ++ obs) conns' := by
  intro i conn' hconn'
  have hlt : i < conns.length := by
    rw [← hhandled.length_eq]
    exact (List.getElem?_eq_some_iff.mp hconn').1
  obtain ⟨next, hnext, hrun⟩ := hhandled.touches i _ (List.getElem?_eq_getElem hlt)
  obtain rfl := Option.some.inj (hnext.symm.trans hconn')
  rw [received_append]
  exact along_run hP (h i _ (List.getElem?_eq_getElem hlt))
    (fun o ho => of_decide_eq_true (List.mem_filter.mp ho).2) hrun

end Along

/-- At the start nothing has been received and no slot is in use. -/
theorem along_start {P : Option Bytes → Connection → Prop} (store : KeyStore)
    (hP : P none { fd := 0, openTime := 0, bufSize := 0, bufCap := 0, buf := none }) :
    Along P (Server.start store).log (Server.start store).resources.conns := by
  intro i conn hconn
  have hmem := List.mem_of_getElem? hconn
  simp only [Server.start, List.mem_replicate] at hmem
  obtain ⟨-, rfl⟩ := hmem
  exact hP

end X509Server
