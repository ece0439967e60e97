import X509Server.Analysis.CountSpec
import X509Server.Interface.Buffers

/-!
# Receive buffers

A buffer grows by doubling while it is below the limit, so its capacity never passes `2 ^ 31`
and is never used up: `Fits` says so for every touch of a connection, and `Handled.sized` that
an event leaves no buffer at the limit.  In the second half, two states that differ only in
bytes that have not been received are followed through every handler.
-/

set_option autoImplicit false

namespace X509Server

open Checked Runs

/-! ## Capacity -/

/-- `Represents` without the limit on the size, which a buffer may pass before its
connection is closed. -/
structure Fits (session : Option Bytes) (conn : Connection) : Prop where
  capacity : conn.buf = none ∨ ∃ k, conn.bufCap = 1024 * 2 ^ k ∧ conn.bufCap ≤ 2 ^ 31
  allocated : 0 < conn.fd → conn.buf.isSome = true
  room : 0 < conn.fd → conn.bufSize < maxScriptSize → conn.bufSize < conn.bufCap
  tracks : Tracks session conn

theorem Fits.represents {session : Option Bytes} {conn : Connection} (h : Fits session conn)
    (hsize : conn.bufSize < maxScriptSize) : Represents session conn where
  capacity := h.capacity
  free := h.tracks.empty
  allocated := h.allocated
  room hopen := Nat.lt_min.mpr ⟨h.room hopen hsize, hsize⟩
  contents := h.tracks.contents

theorem Represents.fits {session : Option Bytes} {conn : Connection}
    (h : Represents session conn) : Fits session conn where
  capacity := h.capacity
  allocated := h.allocated
  room hopen _ := (Nat.lt_min.mp (h.room hopen)).1
  tracks := ⟨h.contents, h.free⟩

/-- Doubling a capacity below the limit does not pass it. -/
theorem double_le {k : ℕ} (h : 1024 * 2 ^ k < 2 ^ 31) : 1024 * 2 ^ k * 2 ≤ 2 ^ 31 := by
  have hpow : 2 ^ (10 + k) < 2 ^ 31 := by
    rw [pow_add]
    exact h
  have hk : 10 + k < 31 := (Nat.pow_lt_pow_iff_right (by decide)).mp hpow
  have hle : 2 ^ (10 + k + 1) ≤ 2 ^ 31 := Nat.pow_le_pow_right (by decide) (by omega)
  rw [pow_succ, pow_add] at hle
  exact hle

theorem maxScriptSize_eq : maxScriptSize = 2 ^ 31 := by decide

/-- A chunk that fits leaves a buffer that fits. -/
theorem Fits.store {session : Option Bytes} {conn : Connection} (h : Fits session conn)
    (hopen : 0 < conn.fd) {chunk : Bytes} (hroom : conn.bufSize + chunk.length ≤ conn.bufCap) :
    (∃ k, (conn.store chunk).bufCap = 1024 * 2 ^ k ∧ (conn.store chunk).bufCap ≤ 2 ^ 31) ∧
      ((conn.store chunk).bufSize < maxScriptSize →
        (conn.store chunk).bufSize < (conn.store chunk).bufCap) := by
  have hallocated := h.allocated hopen
  have hsize : (conn.append chunk).bufSize = conn.bufSize + chunk.length := rfl
  have hcap : (conn.append chunk).bufCap = conn.bufCap := rfl
  obtain ⟨k, hk, hle⟩ : ∃ k, conn.bufCap = 1024 * 2 ^ k ∧ conn.bufCap ≤ 2 ^ 31 := by
    rcases h.capacity with hnone | hcapacity
    · rw [hnone] at hallocated
      cases hallocated
    · exact hcapacity
  unfold Connection.store
  by_cases hlarge : (conn.append chunk).bufSize ≥ maxScriptSize
  · rw [if_pos hlarge]
    exact ⟨⟨k, hk, hle⟩, fun hsmall => absurd hsmall (by omega)⟩
  · rw [if_neg hlarge]
    unfold Connection.grow
    by_cases hfull : (conn.append chunk).bufSize ≥ (conn.append chunk).bufCap
    · rw [if_pos hfull]
      have hlimit := maxScriptSize_eq
      have hbelow : 1024 * 2 ^ k < 2 ^ 31 := by omega
      have hdouble := double_le hbelow
      refine ⟨⟨k + 1, ?_, ?_⟩, fun _ => ?_⟩
      · change conn.bufCap * 2 = 1024 * 2 ^ (k + 1)
        rw [hk, pow_succ, mul_assoc]
      · change conn.bufCap * 2 ≤ 2 ^ 31
        rw [hk]
        exact hdouble
      · change conn.bufSize + chunk.length < conn.bufCap * 2
        have hpos : 0 < 2 ^ k := Nat.two_pow_pos k
        omega
    · rw [if_neg hfull]
      exact ⟨⟨k, hk, hle⟩, fun _ => by omega⟩

/-- Every touch keeps a buffer that fits. -/
theorem Fits.touch {a : Answers} {session : Option Bytes} {conn conn' : Connection}
    {o : Observation} (h : Fits session conn) (htouch : Touch a conn o conn') :
    Fits (observe o.slot session o) conn' := by
  have htracks := h.tracks.touch htouch
  cases htouch with
  | opened slot unused accepted =>
    have hempty := conn.attach_bufSize a (h.tracks.empty unused)
    have hfresh : (conn.attach a).buf.isSome = true ∧
        ∃ k, (conn.attach a).bufCap = 1024 * 2 ^ k ∧ (conn.attach a).bufCap ≤ 2 ^ 31 := by
      unfold Connection.attach
      cases hbuf : conn.buf with
      | none =>
        have hle : kilobyte ≤ 2 ^ 31 := by decide
        exact ⟨rfl, 0, rfl, hle⟩
      | some cells =>
        rcases h.capacity with hnone | hcapacity
        · rw [hbuf] at hnone
          cases hnone
        · exact ⟨rfl, hcapacity⟩
    obtain ⟨hallocated, k, hk, hle⟩ := hfresh
    refine ⟨Or.inr ⟨k, hk, hle⟩, fun _ => hallocated, fun _ _ => ?_, htracks⟩
    have hpos : 0 < 2 ^ k := Nat.two_pow_pos k
    omega
  | received slot chunk inUse allocated room =>
    obtain ⟨hcapacity, hroom⟩ := h.store inUse room
    have hbuf : (conn.store chunk).buf.isSome = true := by
      unfold Connection.store Connection.grow Connection.append
      split
      · rw [Option.isSome_map]
        exact allocated
      · split <;> (rw [Option.isSome_map]; exact allocated)
    exact ⟨Or.inr hcapacity, fun _ => hbuf, fun _ => hroom, htracks⟩
  | terminated slot inUse => exact ⟨h.capacity, h.allocated, h.room, htracks⟩
  | executed slot script n inUse => exact ⟨h.capacity, h.allocated, h.room, htracks⟩
  | closed slot inUse =>
    exact ⟨h.capacity, fun hopen => absurd hopen (by simp), fun hopen => absurd hopen (by simp),
      htracks⟩

/-- A chunk that fits and stays below the limit leaves a buffer that represents it too. -/
theorem Represents.append {session : Option Bytes} {conn : Connection}
    (h : Represents session conn) (hopen : 0 < conn.fd) {chunk : Bytes}
    (hfits : conn.bufSize + chunk.length ≤ conn.bufCap)
    (hsmall : ¬ (conn.append chunk).bufSize ≥ maxScriptSize) :
    Represents (session.map fun session => session ++ chunk) (conn.append chunk).grow := by
  let a : Answers := ⟨0, true, 0, fun _ => 0, [], 0⟩
  have htouch := Touch.received (a := a) 0 chunk hopen (h.allocated hopen) hfits
  have hnext := h.fits.touch htouch
  rw [Connection.store, if_neg hsmall] at hnext
  have hsize : (conn.append chunk).grow.bufSize < maxScriptSize := by
    rw [Connection.grow_bufSize]
    omega
  exact hnext.represents hsize

/-- From a buffer that represents what was received, the receive loop runs, and ends in such
a buffer unless it gives up the connection. -/
theorem recvLoop_represents (results : List RecvResult) {session : Option Bytes}
    {conn : Connection} (h : Represents session conn) (hopen : 0 < conn.fd) :
    ∃ reception, recvLoop results conn = .ok reception ∧ (reception.dropped = false →
      Represents (session.map fun session => session ++ reception.chunks.flatten)
        reception.conn) := by
  induction results generalizing session conn with
  | nil =>
    refine ⟨⟨conn, false, []⟩, rfl, fun _ => ?_⟩
    simpa using h
  | cons result results ih =>
    cases result with
    | failed again =>
      refine ⟨⟨conn, !again, []⟩, rfl, fun _ => ?_⟩
      simpa using h
    | data available =>
      have hroom := Nat.lt_min.mp (h.room hopen)
      have hallocated := h.allocated hopen
      unfold recvLoop
      rw [usub_eq (by omega), ok_bind]
      by_cases hend : available.take (conn.bufCap - conn.bufSize) = []
      · rw [if_pos hend]
        refine ⟨_, rfl, fun _ => ?_⟩
        simpa using h
      · have hpresent : ¬ conn.buf.isNone = true := by
          obtain ⟨cells, hcells⟩ := Option.isSome_iff_exists.mp hallocated
          simp [hcells]
        rw [if_neg hend, if_neg hpresent]
        generalize hchunk : available.take (conn.bufCap - conn.bufSize) = chunk
        have hfits : conn.bufSize + chunk.length ≤ conn.bufCap := by
          rw [← hchunk]
          have := List.length_take_le (conn.bufCap - conn.bufSize) available
          omega
        by_cases hlarge : (conn.append chunk).bufSize ≥ maxScriptSize
        · rw [if_pos hlarge]
          exact ⟨_, rfl, fun hkept => nomatch hkept⟩
        · have hnext := h.append hopen hfits hlarge
          have hfd := (conn.append chunk).grow_fd
          obtain ⟨rest, hrest, hkept⟩ := ih hnext (by rw [hfd]; exact hopen)
          rw [if_neg hlarge, hrest, ok_bind]
          refine ⟨_, rfl, fun hdropped => ?_⟩
          have hrepresents := hkept hdropped
          cases session with
          | none => exact hrepresents
          | some session => simpa using hrepresents

/-! ## Bytes that have not been received -/

section Alike

/-- Results that differ only in such bytes. -/
def AlikeResult (p p' : Resources × List Observation) : Prop := p.1.Alike p'.1 ∧ p.2 = p'.2

theorem alike_refl (conn : Connection) : conn.Alike conn := ⟨rfl, rfl, rfl, rfl, rfl, rfl⟩

theorem forall₂_set {R : Connection → Connection → Prop} {conns conns' : List Connection}
    (h : List.Forall₂ R conns conns') (i : ℕ) {conn conn' : Connection} (hconn : R conn conn') :
    List.Forall₂ R (conns.set i conn) (conns'.set i conn') := by
  induction h generalizing i with
  | nil => exact .nil
  | cons head tail ih =>
    cases i with
    | zero => exact .cons hconn tail
    | succ i => exact .cons head (ih i)

theorem Resources.Alike.set {r r' : Resources} (h : r.Alike r') (i : ℕ) {conn conn' : Connection}
    (hconn : conn.Alike conn') :
    Resources.Alike { r with conns := r.conns.set i conn }
      { r' with conns := r'.conns.set i conn' } :=
  ⟨h.keys, h.scriptN, h.connsTotal, forall₂_set h.conns i hconn⟩

theorem connAt_related {conns conns' : List Connection}
    (h : List.Forall₂ Connection.Alike conns conns') (i : ℕ) :
    Related Connection.Alike (connAt conns i) (connAt conns' i) := by
  unfold connAt
  induction h generalizing i with
  | nil => rfl
  | cons head tail ih =>
    cases i with
    | zero => exact head
    | succ i => exact ih i

theorem freeConn_related {r r' : Resources} (h : r.Alike r') (i : ℕ) :
    Related AlikeResult (r.freeConn i) (r'.freeConn i) := by
  unfold Resources.freeConn
  refine (connAt_related h.conns i).bind fun conn conn' hconn => ?_
  rw [h.connsTotal]
  refine (related_self _).bind fun total total' htotal => ?_
  subst htotal
  have hempty : Connection.Alike { conn with fd := 0, bufSize := 0, openTime := 0 }
      { conn' with fd := 0, bufSize := 0, openTime := 0 } := by
    refine ⟨rfl, rfl, rfl, hconn.bufCap, hconn.allocated, ?_⟩
    unfold Connection.contents
    cases conn.buf <;> cases conn'.buf <;> rfl
  exact ⟨⟨h.keys, h.scriptN, rfl, forall₂_set h.conns i hempty⟩, rfl⟩

/-! ### The listening socket -/

theorem scanOldest_alike {conns conns' : List Connection}
    (h : List.Forall₂ Connection.Alike conns conns') (i : ℕ) (minOpenTime : ℤ)
    (minConn : Option ℕ) :
    scanOldest conns i minOpenTime minConn = scanOldest conns' i minOpenTime minConn := by
  induction h generalizing i minOpenTime minConn with
  | nil => rfl
  | cons head tail ih =>
    unfold scanOldest
    rw [head.fd, head.openTime, ih, ih]

theorem evict_related {r r' : Resources} (h : r.Alike r') :
    Related AlikeResult r.evict r'.evict := by
  unfold Resources.evict oldest
  rw [scanOldest_alike h.conns, h.connsTotal]
  apply Related.ite Iff.rfl
  · intro _
    cases scanOldest r'.conns 0 maxInt64 none with
    | none => rfl
    | some i => exact freeConn_related h i
  · intro _
    exact ⟨h, rfl⟩

theorem findIdx?_alike {conns conns' : List Connection}
    (h : List.Forall₂ Connection.Alike conns conns') :
    (conns.findIdx? fun conn => decide (conn.fd ≤ 0)) =
      conns'.findIdx? fun conn => decide (conn.fd ≤ 0) := by
  induction h with
  | nil => rfl
  | cons head tail ih =>
    rw [List.findIdx?_cons, List.findIdx?_cons, head.fd, ih]

theorem Connection.Alike.attach {conn conn' : Connection} (h : conn.Alike conn') (a : Answers) :
    (conn.attach a).Alike (conn'.attach a) := by
  have hallocated := h.allocated
  have hcontents := h.contents
  unfold Connection.attach
  cases hbuf : conn.buf with
  | none =>
    cases hbuf' : conn'.buf with
    | none => exact alike_refl _
    | some cells' => simp [hbuf, hbuf'] at hallocated
  | some cells =>
    cases hbuf' : conn'.buf with
    | none => simp [hbuf, hbuf'] at hallocated
    | some cells' =>
      simp only [Connection.contents, hbuf, hbuf'] at hcontents
      exact ⟨rfl, rfl, h.bufSize, h.bufCap, rfl, hcontents⟩

theorem register_related {r r' : Resources} (h : r.Alike r') (a : Answers) :
    Related AlikeResult (r.register a) (r'.register a) := by
  have hcount : Resources.Alike { r with connsTotal := r.connsTotal + 1 }
      { r' with connsTotal := r'.connsTotal + 1 } :=
    ⟨h.keys, h.scriptN, congrArg (· + 1) h.connsTotal, h.conns⟩
  unfold Resources.register
  dsimp only
  rw [findIdx?_alike h.conns]
  cases r'.conns.findIdx? fun conn => decide (conn.fd ≤ 0) with
  | none => exact (related_self _).bind fun _ _ _ => ⟨hcount, rfl⟩
  | some i =>
    refine (connAt_related h.conns i).bind fun conn conn' hconn => ?_
    apply Related.ite Iff.rfl
    · intro _
      exact (related_self _).bind fun _ _ _ => ⟨hcount, rfl⟩
    · intro _
      exact ⟨hcount.set i (hconn.attach a), rfl⟩

theorem handleAccept_related {r r' : Resources} (h : r.Alike r') (a : Answers) :
    Related AlikeResult (handleAccept a r) (handleAccept a r') := by
  unfold handleAccept
  refine (evict_related h).bind ?_
  rintro ⟨r₁, evicted⟩ ⟨r₁', evicted'⟩ ⟨h₁, rfl⟩
  apply Related.ite Iff.rfl
  · intro _
    exact ⟨h₁, rfl⟩
  · intro _
    refine (register_related h₁ a).bind ?_
    rintro ⟨r₂, opened⟩ ⟨r₂', opened'⟩ ⟨h₂, rfl⟩
    exact ⟨h₂, rfl⟩

/-! ### Connections -/

theorem Connection.Alike.append {conn conn' : Connection} (h : conn.Alike conn')
    (hallocated : conn.buf.isSome = true) (chunk : Bytes) :
    (conn.append chunk).Alike (conn'.append chunk) := by
  have hallocated' : conn'.buf.isSome = true := by
    rw [← h.allocated]
    exact hallocated
  refine ⟨h.fd, h.openTime, ?_, h.bufCap, ?_, ?_⟩
  · change conn.bufSize + chunk.length = conn'.bufSize + chunk.length
    rw [h.bufSize]
  · change (conn.buf.map _).isSome = (conn'.buf.map _).isSome
    rw [Option.isSome_map, Option.isSome_map, h.allocated]
  · rw [conn.append_contents hallocated, conn'.append_contents hallocated', h.contents]

theorem Connection.Alike.grow {conn conn' : Connection} (h : conn.Alike conn') :
    conn.grow.Alike conn'.grow := by
  have hcap : conn.bufCap * 2 = conn'.bufCap * 2 := by rw [h.bufCap]
  have hsame : conn.bufSize ≥ conn.bufCap ↔ conn'.bufSize ≥ conn'.bufCap := by
    rw [h.bufSize, h.bufCap]
  unfold Connection.grow
  by_cases hfull : conn.bufSize ≥ conn.bufCap
  · rw [if_pos hfull, if_pos (hsame.mp hfull)]
    exact ⟨h.fd, h.openTime, h.bufSize, hcap, h.allocated, h.contents⟩
  · rw [if_neg hfull, if_neg (mt hsame.mpr hfull)]
    exact h

/-- The connections that the receive loop leaves are alike, and everything else is the same. -/
structure Reception.Alike (reception reception' : Reception) : Prop where
  conn : reception.conn.Alike reception'.conn
  dropped : reception.dropped = reception'.dropped
  chunks : reception.chunks = reception'.chunks

theorem recvLoop_related (results : List RecvResult) {conn conn' : Connection}
    (h : conn.Alike conn') :
    Related Reception.Alike (recvLoop results conn) (recvLoop results conn') := by
  induction results generalizing conn conn' with
  | nil => exact ⟨h, rfl, rfl⟩
  | cons result results ih =>
    cases result with
    | failed again => exact ⟨h, rfl, rfl⟩
    | data available =>
      unfold recvLoop
      rw [h.bufCap, h.bufSize]
      refine (related_self _).bind fun room room' hroom => ?_
      subst hroom
      dsimp only
      apply Related.ite Iff.rfl
      · intro _
        exact ⟨h, rfl, rfl⟩
      intro _
      have hnone : conn.buf.isNone = true ↔ conn'.buf.isNone = true := by
        rw [← Option.not_isSome, ← Option.not_isSome, h.allocated]
      apply Related.ite hnone
      · intro _
        rfl
      intro hbuf
      have hallocated : conn.buf.isSome = true := by
        rw [← Option.isNone_eq_false_iff]
        exact eq_false_of_ne_true hbuf
      have happend := h.append hallocated (available.take room)
      rw [happend.bufSize]
      apply Related.ite Iff.rfl
      · intro _
        exact ⟨happend, rfl, rfl⟩
      · intro _
        refine (ih happend.grow).bind fun rest rest' hrest => ?_
        exact ⟨hrest.conn, hrest.dropped,
          congrArg (fun chunks => available.take room :: chunks) hrest.chunks⟩

theorem handleReceive_related {r r' : Resources} (h : r.Alike r') (slot : ℕ) (e : Event)
    (a : Answers) :
    Related AlikeResult (handleReceive slot e a r) (handleReceive slot e a r') := by
  unfold handleReceive
  apply Related.ite Iff.rfl
  · intro _
    refine (connAt_related h.conns slot).bind fun conn conn' hconn => ?_
    refine (recvLoop_related a.recvs hconn).bind fun reception reception' hreception => ?_
    have hset := h.set slot hreception.conn
    dsimp only
    rw [hreception.dropped, hreception.chunks]
    apply Related.ite Iff.rfl
    · intro _
      refine (freeConn_related hset slot).bind ?_
      rintro ⟨r₁, closed⟩ ⟨r₁', closed'⟩ ⟨h₁, rfl⟩
      exact ⟨h₁, rfl⟩
    · intro _
      exact ⟨hset, rfl⟩
  · intro _
    exact ⟨h, rfl⟩

variable (verify : PubKey → Bytes → Bytes → Bool)

theorem handleTermination_related {r r' : Resources} (h : r.Alike r') (slot : ℕ) (e : Event)
    (a : Answers) :
    Related AlikeResult (handleTermination verify slot e a r)
      (handleTermination verify slot e a r') := by
  unfold handleTermination
  refine (connAt_related h.conns slot).bind fun conn conn' hconn => ?_
  rw [hconn.fd, hconn.contents, h.keys, h.scriptN]
  apply Related.ite Iff.rfl
  · intro _
    refine (related_self _).bind ?_
    rintro ⟨keys, script⟩ _ rfl
    cases script with
    | none =>
      have hkeys : Resources.Alike { r with toKeyStore := keys, scriptN := r'.scriptN }
          { r' with toKeyStore := keys } :=
        ⟨rfl, rfl, h.connsTotal, h.conns⟩
      refine (freeConn_related hkeys slot).bind ?_
      rintro ⟨r₁, closed⟩ ⟨r₁', closed'⟩ ⟨h₁, rfl⟩
      exact ⟨h₁, rfl⟩
    | some script =>
      have hkeys : Resources.Alike { r with toKeyStore := keys, scriptN := r'.scriptN + 1 }
          { r' with toKeyStore := keys, scriptN := r'.scriptN + 1 } :=
        ⟨rfl, rfl, h.connsTotal, h.conns⟩
      refine (freeConn_related hkeys slot).bind ?_
      rintro ⟨r₁, closed⟩ ⟨r₁', closed'⟩ ⟨h₁, rfl⟩
      exact ⟨h₁, rfl⟩
  · intro _
    exact ⟨h, rfl⟩

theorem handleError_related {r r' : Resources} (h : r.Alike r') (slot : ℕ) (e : Event) :
    Related AlikeResult (handleError slot e r) (handleError slot e r') := by
  unfold handleError
  refine (connAt_related h.conns slot).bind fun conn conn' hconn => ?_
  rw [hconn.fd]
  apply Related.ite Iff.rfl
  · intro _
    exact freeConn_related h slot
  · intro _
    exact ⟨h, rfl⟩

theorem handleConn_related {r r' : Resources} (h : r.Alike r') (slot : ℕ) (e : Event)
    (a : Answers) :
    Related AlikeResult (handleConn verify slot e a r) (handleConn verify slot e a r') := by
  unfold handleConn
  refine (connAt_related h.conns slot).bind fun conn conn' hconn => ?_
  rw [hconn.fd]
  refine (related_self _).bind fun _ _ _ => ?_
  refine (handleReceive_related h slot e a).bind ?_
  rintro ⟨r₁, obs₁⟩ ⟨r₁', obs₁'⟩ ⟨h₁, rfl⟩
  refine (handleTermination_related verify h₁ slot e a).bind ?_
  rintro ⟨r₂, obs₂⟩ ⟨r₂', obs₂'⟩ ⟨h₂, rfl⟩
  refine (handleError_related h₂ slot e).bind ?_
  rintro ⟨r₃, obs₃⟩ ⟨r₃', obs₃'⟩ ⟨h₃, rfl⟩
  exact ⟨h₃, rfl⟩

theorem handleEvent_related {r r' : Resources} (h : r.Alike r') (e : Event) (a : Answers) :
    Related AlikeResult (handleEvent verify e a r) (handleEvent verify e a r') := by
  unfold handleEvent
  apply Related.ite Iff.rfl
  · intro _
    exact handleAccept_related h a
  intro _
  apply Related.ite Iff.rfl
  · intro _
    exact handleConn_related verify h e.data e a
  · intro _
    rfl

/-! ### Steps -/

theorem Server.Alike.advance {s s' : Server} (h : s.Alike s') (events : List Event)
    {p p' : Served (Resources × List Observation)} (hp : Related AlikeResult p p') :
    (s.advance events p).Alike (s'.advance events p') := by
  cases p with
  | ok result =>
    cases p' with
    | ok result' =>
      obtain ⟨hresources, hobs⟩ := hp
      exact ⟨hresources, rfl, by rw [Server.advance, h.log, hobs]; rfl, h.phase⟩
    | error stop' => exact hp.elim
  | error stop =>
    cases p' with
    | ok result' => exact hp.elim
    | error stop' =>
      obtain rfl : stop = stop' := hp
      cases stop with
      | code reason => exact ⟨h.resources, h.pending, h.log, rfl⟩
      | fault fault => exact ⟨h.resources, h.pending, h.log, rfl⟩

/-- Alike states take the same step, and are alike behind it. -/
theorem Server.Alike.step {s s' : Server} (h : s.Alike s') (l : Label) {t : Server}
    (hstep : s.step verify l = some t) : ∃ t', s'.step verify l = some t' ∧ t.Alike t' := by
  rcases Server.step_cases verify hstep with ⟨rfl, rfl⟩ | ⟨events, rfl, -, -, rfl⟩ |
    ⟨a, e, events, rfl, hrunning, hpending, rfl⟩
  · refine ⟨{ s' with phase := .exited .epollWaitFailed }, ?_,
      ⟨h.resources, h.pending, h.log, rfl⟩⟩
    simp only [Server.step, ← h.phase, ← h.pending] at hstep ⊢
    split at hstep
    · rename_i hguard
      rw [if_pos hguard]
    · cases hstep
  · refine ⟨{ s' with pending := events }, ?_, ⟨h.resources, rfl, h.log, h.phase⟩⟩
    simp only [Server.step, ← h.phase, ← h.pending] at hstep ⊢
    split at hstep
    · rename_i hguard
      rw [if_pos hguard]
    · cases hstep
  · refine ⟨s'.advance events (handleEvent verify e a s'.resources), ?_,
      h.advance events (handleEvent_related verify h.resources e a)⟩
    have hrunning' : s'.phase = .running := by rw [← h.phase]; exact hrunning
    have hpending' : s'.pending = e :: events := by rw [← h.pending]; exact hpending
    simp only [Server.step, hpending', hrunning', if_true]

end Alike

/-! ## Runs -/

section Runs

variable (verify : PubKey → Bytes → Bytes → Bool)

/-- What every step keeps: the buffers fit, and between two events none is at the limit. -/
structure Fitting (s : Server) : Prop where
  fits : Along Fits s.log s.resources.conns
  sized : ∀ conn ∈ s.resources.conns, conn.bufSize < maxScriptSize

theorem fitting_start (store : KeyStore) : Fitting (Server.start store) where
  fits := by
    apply along_start
    have hclosed (P : Prop) : (0 : ℤ) < 0 → P := fun h => absurd h (lt_irrefl 0)
    exact ⟨Or.inl rfl, hclosed _, hclosed _, ⟨hclosed _, fun _ => rfl⟩⟩
  sized := by
    intro conn hmem
    have hzero : 0 < maxScriptSize := by decide
    simp only [Server.start, List.mem_replicate] at hmem
    obtain ⟨-, rfl⟩ := hmem
    exact hzero

theorem Fitting.step {s t : Server} {l : Label} (h : Fitting s)
    (hstep : s.step verify l = some t) : Fitting t := by
  rcases Server.step_cases verify hstep with ⟨-, rfl⟩ | ⟨events, -, -, -, rfl⟩ |
    ⟨a, e, events, rfl, -, -, rfl⟩
  · exact ⟨h.fits, h.sized⟩
  · exact ⟨h.fits, h.sized⟩
  · have hyields := handleEvent_yields verify a e s.resources
    cases hevent : handleEvent verify e a s.resources with
    | error stop => cases stop <;> exact ⟨h.fits, h.sized⟩
    | ok p =>
      obtain ⟨hhandled, -, -⟩ := hyields.of_ok hevent
      exact ⟨h.fits.handled Fits.touch hhandled, hhandled.sized h.sized⟩

end Runs

/-- In every state of a run each buffer holds exactly what its connection has received, has
the capacity it should have and room for more, at every call of `recv` too; and what lies
behind the received bytes changes no step. -/
theorem buffers_kept (verify : PubKey → Bytes → Bytes → Bool) (store : KeyStore)
    (labels : List Label) (s : Server)
    (hrun : Run (fun s l t => s.step verify l = some t) (Server.start store) labels s) :
    BuffersKept verify s := by
  have hfitting : Fitting s :=
    hrun.invariant (fun s l t h hstep => h.step verify hstep) (fitting_start store)
  have hslots : ∀ i conn, s.resources.conns[i]? = some conn →
      Represents (received i s.log) conn := by
    intro i conn hconn
    exact (hfitting.fits i conn hconn).represents
      (hfitting.sized conn (List.mem_of_getElem? hconn))
  refine ⟨hslots, ?_, ?_⟩
  · intro i conn hconn hopen results
    exact recvLoop_represents results (hslots i conn hconn) hopen
  · intro s' halike l t hstep
    exact halike.step verify l hstep

/-- A connection that has sent three bytes in two pieces. -/
theorem buffers_kept_pieces :
    ∃ s : Server, s.log = [.opened 0, .received 0 [1, 2], .received 0 [3]] ∧
      BuffersKept (fun _ _ _ => true) s := by
  have hlog : (List.foldlM (Server.step fun _ _ _ => true) (Server.start (keysUntil [1]))
      [.wait [⟨maxInt32, true, false, false, false⟩], .handle (quietAnswers 0),
        .wait [⟨0, true, false, false, false⟩],
        .handle { quietAnswers 0 with recvs := [.data [1, 2], .data [3]] }]).map
        (fun s => s.log) = some [.opened 0, .received 0 [1, 2], .received 0 [3]] := by
    decide +kernel
  obtain ⟨s, hrun, hs⟩ := Option.map_eq_some_iff.mp hlog
  exact ⟨s, hs, buffers_kept _ _ _ s
    ((run_iff_foldlM (Server.step fun _ _ _ => true) _ s _).mpr hrun)⟩

end X509Server
