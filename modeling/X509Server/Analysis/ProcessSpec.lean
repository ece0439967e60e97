import X509Server.Analysis.ServerSpec
import X509Server.Interface.Custody
import X509Server.Library.Simulation

/-!
# The process and its server

Each part of the server does with the handles what it does without them, and leaves the
process with what its `Resources` say (`serveEvent_refines`).  A slot of the table is the only
place that an event changes, so two lists that differ in one slot are compared
(`flatMap_set_perm`).
-/

set_option autoImplicit false

namespace X509Server

open Checked Ledgers Runs Stateful

variable {ε α β : Type} {start : Holdings} {others others' : List Resource} {p : Process}

/-! ## Calls -/

section Calls

variable {f : PUnit → Program ε α} {q : Guarded ε β} {Q : α → Process → β → Prop}
  {E : ε → Process → Prop}

theorem refines_acquire {resource : Resource} : Refines (acquire resource >>= f) p q Q E ↔
    Refines (f ⟨⟩) { p with held := p.held.acquire resource } q Q E := Iff.rfl

theorem refines_release {resource : Resource} : Refines (release resource >>= f) p q Q E ↔
    Refines (f ⟨⟩) { p with held := p.held.release resource } q Q E := Iff.rfl

theorem refines_close {fd : ℤ} : Refines (close fd >>= f) p q Q E ↔
    Refines (f ⟨⟩) { p with held := p.held.release (.descriptor fd) } q Q E := Iff.rfl

theorem refines_setResources {r : Resources} {f : PUnit → Program Exit α} {q : Served β}
    {E : Exit → Process → Prop} : Refines (setResources r >>= f) p q Q E ↔
      Refines (f ⟨⟩) { p with resources := r } q Q E := Iff.rfl

theorem refines_setKeys {keys : KeyStore} : Refines (setKeys keys >>= f) p q Q E ↔
    Refines (f ⟨⟩) { p with resources := { p.resources with toKeyStore := keys } } q Q E := Iff.rfl

theorem refines_malloc {heap : ℕ → ℕ} {f : ℕ → Program ε α} :
    Refines (malloc heap >>= f) p q Q E ↔
      Refines (f (heap p.allocations))
        { p with
          allocations := p.allocations + 1
          held := p.held.acquire (.block (heap p.allocations)) } q Q E := Iff.rfl

end Calls

theorem connAt_eq {conns : List Connection} {i : ℕ} {conn : Connection}
    (h : conns[i]? = some conn) : connAt conns i = .ok conn := by
  unfold connAt
  rw [h]

theorem connAt_ne_code (conns : List Connection) (i : ℕ) (c : Exit) :
    connAt conns i ≠ .error (.code c) := by
  unfold connAt
  split <;> simp

theorem assertThat_ne_code (b : Bool) (c : ε) :
    (assertThat b : Guarded ε Unit) ≠ .error (.code c) := by
  unfold assertThat
  split <;> simp

theorem assertThat_ok {b : Bool} {u : Unit} (h : (assertThat b : Guarded ε Unit) = .ok u) :
    b = true := by
  unfold assertThat at h
  split at h
  · assumption
  · cases h

theorem usub_ne_code (m n : ℕ) (c : ε) : (usub m n : Guarded ε ℕ) ≠ .error (.code c) := by
  unfold usub
  split <;> simp

theorem connAt_ok {conns : List Connection} {i : ℕ} {conn : Connection}
    (h : connAt conns i = .ok conn) : conns[i]? = some conn :=
  (connAt_yields (E := fun _ => True) conns i).of_ok h

/-! ## What is kept -/

theorem Process.Keeps.acquire (h : p.Keeps start others) (resource : Resource) :
    Process.Keeps start (resource :: others) { p with held := p.held.acquire resource } :=
  ⟨fun hstdin => (h.balanced hstdin).acquire resource, h.length_eq⟩

theorem Process.Keeps.release {resource : Resource} (h : p.Keeps start (resource :: others)) :
    Process.Keeps start others { p with held := p.held.release resource } :=
  ⟨fun hstdin => (h.balanced hstdin).release, h.length_eq⟩

theorem Process.Keeps.malloc (h : p.Keeps start others) (heap : ℕ → ℕ) :
    Process.Keeps start (.block (heap p.allocations) :: others)
      { p with
        allocations := p.allocations + 1
        held := p.held.acquire (.block (heap p.allocations)) } :=
  ⟨fun hstdin => (h.balanced hstdin).acquire _, h.length_eq⟩

/-- The entries of a list but the one in a slot. -/
theorem flatMap_set_perm {l : List α} {i : ℕ} {a : α} (f : α → List β) (h : l[i]? = some a)
    (b : α) : ∃ rest, (l.flatMap f).Perm (f a ++ rest) ∧
      ((l.set i b).flatMap f).Perm (f b ++ rest) := by
  obtain ⟨hi, rfl⟩ := List.getElem?_eq_some_iff.mp h
  refine ⟨(l.take i).flatMap f ++ (l.drop (i + 1)).flatMap f, ?_, ?_⟩
  · have hsplit : l.flatMap f = (l.take i).flatMap f ++ (f l[i] ++ (l.drop (i + 1)).flatMap f) := by
      rw [← List.flatMap_cons, ← List.flatMap_append, List.getElem_cons_drop, List.take_append_drop]
    rw [hsplit]
    exact List.perm_append_comm_assoc ..
  · rw [List.set_eq_take_append_cons_drop, if_pos hi, List.flatMap_append, List.flatMap_cons]
    exact List.perm_append_comm_assoc ..

/-- Things change their places. -/
theorem Process.Keeps.exchange {old new : List Resource} {t : Process}
    (h : p.Keeps start (new ++ others)) (hheld : t.held = p.held)
    (hlength : t.bufsAt.length = t.resources.conns.length)
    (hcount : ∀ a, new.count a + p.holdings.count a = old.count a + t.holdings.count a) :
    t.Keeps start (old ++ others) := by
  refine ⟨fun hstdin => ?_, hlength⟩
  rw [hheld]
  apply (h.balanced hstdin).perm
  apply List.perm_iff_count.mpr
  intro a
  have := hcount a
  simp only [List.count_append]
  omega

/-- A slot of the table gets another descriptor, and its old one is left to be closed. -/
theorem Process.Keeps.setConn {i : ℕ} {conn : Connection} {r : Resources} (conn' : Connection)
    (others : List Resource) (h : p.Keeps start (fdHoldings conn'.fd ++ others))
    (hconn : p.resources.conns[i]? = some conn) (hr : r.conns = p.resources.conns.set i conn') :
    Process.Keeps start (fdHoldings conn.fd ++ others) { p with resources := r } := by
  obtain ⟨rest, hold, hnew⟩ := flatMap_set_perm (fun conn => fdHoldings conn.fd) hconn conn'
  refine Process.Keeps.exchange h (by rfl) (by rw [hr, List.length_set]; exact h.length_eq)
    fun a => ?_
  have hcount := hold.count_eq a
  have hcount' := hnew.count_eq a
  simp only [Process.holdings, hr, List.count_append] at hcount hcount' ⊢
  omega

/-- A slot gets another buffer, and its old one is left to be freed. -/
theorem Process.Keeps.setBuf {i : ℕ} {buf : Option ℕ} (buf' : Option ℕ) (others : List Resource)
    (h : p.Keeps start (blockHoldings buf' ++ others)) (hbuf : p.bufsAt[i]? = some buf) :
    Process.Keeps start (blockHoldings buf ++ others)
      { p with bufsAt := p.bufsAt.set i buf' } := by
  obtain ⟨rest, hold, hnew⟩ := flatMap_set_perm blockHoldings hbuf buf'
  refine Process.Keeps.exchange h (by rfl) (by rw [List.length_set]; exact h.length_eq) fun a => ?_
  have hcount := hold.count_eq a
  have hcount' := hnew.count_eq a
  simp only [Process.holdings, List.count_append] at hcount hcount' ⊢
  omega

/-- A slot keeps its descriptor. -/
theorem Process.Keeps.setSame {i : ℕ} {conn : Connection} {r : Resources} (conn' : Connection)
    (h : p.Keeps start []) (hconn : p.resources.conns[i]? = some conn)
    (hr : r.conns = p.resources.conns.set i conn') (hfd : conn'.fd = conn.fd) :
    Process.Keeps start [] { p with resources := r } := by
  obtain ⟨rest, hold, hnew⟩ := flatMap_set_perm (fun conn => fdHoldings conn.fd) hconn conn'
  change Process.Keeps start ([] ++ []) { p with resources := r }
  change p.Keeps start ([] ++ []) at h
  refine Process.Keeps.exchange h (by rfl) (by rw [hr, List.length_set]; exact h.length_eq)
    fun a => ?_
  have hcount := hold.count_eq a
  have hcount' := hnew.count_eq a
  simp only [Process.holdings, hr, hfd, List.count_append] at hcount hcount' ⊢
  omega

/-! ## Connections -/

/-- What a part of the server leaves, with the handles and without. -/
def Agrees (start : Holdings) (obs : List Observation) (t : Process)
    (r : Resources × List Observation) : Prop :=
  t.resources = r.1 ∧ obs = r.2 ∧ t.Keeps start []

theorem closeConn_refines {i : ℕ} {conn : Connection} {E : Exit → Process → Prop}
    (h : p.Keeps start []) (hconn : p.resources.conns[i]? = some conn) (hopen : 0 < conn.fd) :
    Refines (closeConn i) p (p.resources.freeConn i) (Agrees start) E := by
  unfold closeConn
  rw [refines_get, refines_lift_ok (connAt_eq hconn)]
  by_cases hone : 1 ≤ p.resources.connsTotal
  · rw [freeConn_eq hconn hone]
    have hset := Process.Keeps.setConn
      (r := { p.resources with
        conns := p.resources.conns.set i { conn with fd := 0, bufSize := 0, openTime := 0 }
        connsTotal := p.resources.connsTotal - 1 })
      { conn with fd := 0, bufSize := 0, openTime := 0 } [] h hconn rfl
    rw [fdHoldings, if_pos hopen] at hset
    exact (show Agrees start [.closed i] _ (_, [.closed i]) from ⟨rfl, rfl, hset.release⟩)
  · have hfree : p.resources.freeConn i = .error (.fault .wrapAround) := by
      unfold Resources.freeConn
      rw [connAt_eq hconn, ok_bind, usub, if_neg hone]
      rfl
    rw [hfree]
    exact (rfl : Fault.wrapAround = Fault.wrapAround)

theorem evictConn_refines {E : Exit → Process → Prop} (h : p.Keeps start []) :
    Refines evictConn p p.resources.evict (Agrees start) E := by
  unfold evictConn Resources.evict
  rw [refines_get]
  split
  · cases hold : oldest p.resources.conns with
    | none => exact refines_fault _
    | some i =>
      obtain ⟨conn, holdest⟩ := oldest_spec hold
      exact closeConn_refines h holdest.conn_eq holdest.inUse
  · exact refines_pure ⟨rfl, rfl, h⟩

/-! ## Buffers -/

variable {heap : ℕ → ℕ}

/-- A slot without a buffer gets one. -/
theorem allocateBuf_refines {i : ℕ} {E : Exit → Process → Prop} (h : p.Keeps start others) :
    Refines (allocateBuf heap i) p (.ok () : Served Unit)
      (fun _ t _ => t.resources = p.resources ∧ t.Keeps start others) E := by
  unfold allocateBuf
  rw [refines_get]
  split
  · rename_i hnone
    have hheld := h.malloc heap
    have hset := Process.Keeps.setBuf (some (heap p.allocations)) others hheld hnone
    exact And.intro rfl hset
  · exact refines_pure ⟨rfl, h⟩

/-- A full buffer is given back for another one. -/
theorem growBuf_refines {i : ℕ} {conn : Connection} {E : Exit → Process → Prop}
    (h : p.Keeps start others) (hi : i < p.resources.conns.length) :
    Refines (growBuf heap i conn) p (.ok () : Served Unit)
      (fun _ t _ => t.resources = p.resources ∧ t.Keeps start others) E := by
  unfold growBuf
  rw [refines_get]
  split
  · obtain ⟨buf, hbuf⟩ : ∃ buf, p.bufsAt[i]? = some buf :=
      ⟨_, List.getElem?_eq_getElem (h.length_eq ▸ hi)⟩
    rw [hbuf]
    cases buf with
    | none =>
      have hheld := h.malloc heap
      have hset := Process.Keeps.setBuf (some (heap p.allocations)) others hheld hbuf
      exact And.intro rfl hset
    | some address =>
      -- the slot is empty between the two halves of `realloc`
      have hempty := Process.Keeps.setBuf none others h hbuf
      have hheld := hempty.release.malloc heap
      have hnone : (p.bufsAt.set i none)[i]? = some none :=
        List.getElem?_set_self (h.length_eq ▸ hi)
      have hset := Process.Keeps.setBuf (some (heap p.allocations)) others hheld hnone
      dsimp only at hset
      rw [List.set_set] at hset
      exact And.intro rfl hset
  · exact refines_pure ⟨rfl, h⟩

/-! ## The listening socket -/

/-- Descriptor 0 is not given out, unless by mistake. -/
theorem Process.Keeps.acquire_stdin (h : p.Keeps start others) (others' : List Resource) :
    Process.Keeps start others' { p with held := p.held.acquire (.descriptor 0) } :=
  ⟨fun hstdin => (h.balanced hstdin).acquire_live hstdin _, h.length_eq⟩

/-- A slot without a descriptor gets the new one, or it is closed again. -/
theorem registerConn_refines {a : Answers} {E : Exit → Process → Prop}
    (h : p.Keeps start (fdHoldings a.accept)) (hclose : p.Keeps start [.descriptor a.accept]) :
    Refines (registerConn heap a) p (p.resources.register a) (Agrees start) E := by
  unfold registerConn Resources.register
  rw [refines_get, refines_setResources]
  dsimp only
  cases hfind : p.resources.conns.findIdx? fun conn => decide (conn.fd ≤ 0) with
  | none =>
    apply (refines_lift fun c hc => absurd hc (assertThat_ne_code _ c)).bind
    rintro _ _ _ ⟨rfl, rfl, hzero⟩
    have haccept : a.accept = 0 := of_decide_eq_true (assertThat_ok hzero)
    rw [haccept] at h
    exact refines_pure ⟨rfl, rfl, h.balanced, h.length_eq⟩
  | some i =>
    apply (refines_lift fun c hc => absurd hc (connAt_ne_code _ _ c)).bind
    rintro conn _ _ ⟨rfl, rfl, hfound⟩
    have hconn := connAt_ok hfound
    split
    · rw [refines_close]
      apply (refines_lift fun c hc => absurd hc (assertThat_ne_code _ c)).bind
      rintro _ _ _ ⟨rfl, rfl, -⟩
      exact refines_pure ⟨rfl, rfl, hclose.release.balanced, h.length_eq⟩
    · have hstart : Process.Keeps start (fdHoldings a.accept) { p with
          resources := { p.resources with connsTotal := p.resources.connsTotal + 1 } } :=
        ⟨h.balanced, h.length_eq⟩
      apply (allocateBuf_refines hstart).silent
      rintro _ t ⟨hresources, hkept⟩
      rw [refines_setResources]
      have hunused : conn.fd ≤ 0 := by
        obtain ⟨hi, hfree, -⟩ := List.findIdx?_eq_some_iff_getElem.mp hfind
        obtain ⟨-, rfl⟩ := List.getElem?_eq_some_iff.mp hconn
        exact of_decide_eq_true hfree
      have hset := Process.Keeps.setConn (p := t)
        (r := { p.resources with
          conns := p.resources.conns.set i (conn.attach a)
          connsTotal := p.resources.connsTotal + 1 })
        (conn.attach a) [] (by rwa [conn.attach_fd, List.append_nil])
        (by rw [hresources]; exact hconn) (by rw [hresources])
      rw [fdHoldings, if_neg (by omega)] at hset
      exact refines_pure ⟨rfl, rfl, hset⟩

/-- An event of the listening socket. -/
theorem serveAccept_refines {a : Answers} {E : Exit → Process → Prop} (h : p.Keeps start []) :
    Refines (serveAccept heap a) p (handleAccept a p.resources) (Agrees start) E := by
  unfold serveAccept handleAccept
  apply (evictConn_refines h).bind
  rintro evicted t ⟨r, _⟩ ⟨rfl, rfl, hkept⟩
  dsimp only
  split
  · exact refines_pure ⟨rfl, rfl, hkept⟩
  · rename_i haccept
    rw [refines_acquire]
    have hheld := hkept.acquire (.descriptor a.accept)
    have hnew : Process.Keeps start (fdHoldings a.accept)
        { t with held := t.held.acquire (.descriptor a.accept) } := by
      rcases (not_lt.mp haccept).eq_or_lt with hzero | hpos
      · rw [← hzero]
        exact hkept.acquire_stdin _
      · rwa [fdHoldings, if_pos hpos]
    apply (registerConn_refines hnew hheld).bind
    rintro opened t ⟨r, _⟩ ⟨rfl, rfl, hkept⟩
    exact refines_pure ⟨rfl, rfl, hkept⟩


/-! ## Receiving -/

/-- The receive loop. -/
theorem recvConn_refines {slot : ℕ} {results : List RecvResult} {conn : Connection}
    {E : Exit → Process → Prop} (h : p.Keeps start [])
    (hconn : p.resources.conns[slot]? = some conn) :
    Refines (recvConn heap slot results) p (recvLoop results conn)
      (fun out t reception =>
        t.resources = { p.resources with conns := p.resources.conns.set slot reception.conn } ∧
          out = (reception.dropped, reception.chunks) ∧ reception.conn.fd = conn.fd ∧
          t.Keeps start []) E := by
  have hi : slot < p.resources.conns.length := (List.getElem?_eq_some_iff.mp hconn).1
  have hsame : p.resources = { p.resources with conns := p.resources.conns.set slot conn } := by
    obtain ⟨-, rfl⟩ := List.getElem?_eq_some_iff.mp hconn
    rw [List.set_getElem_self]
  induction results generalizing p conn with
  | nil => exact refines_pure ⟨hsame, rfl, rfl, h⟩
  | cons result results ih =>
    cases result with
    | failed again => exact refines_pure ⟨hsame, rfl, rfl, h⟩
    | data available =>
      unfold recvConn recvLoop
      rw [refines_get, refines_lift_ok (connAt_eq hconn)]
      apply (refines_lift fun c hc => absurd hc (usub_ne_code _ _ c)).bind
      rintro room _ _ ⟨rfl, rfl, -⟩
      dsimp only
      split
      · exact refines_pure ⟨hsame, rfl, rfl, h⟩
      split
      · exact refines_fault _
      rw [refines_setResources]
      have hstored := Process.Keeps.setSame
        (r := { p.resources with
          conns := p.resources.conns.set slot (conn.append (available.take room)) })
        (conn.append (available.take room)) h hconn rfl rfl
      split
      · exact refines_pure ⟨rfl, rfl, rfl, hstored⟩
      · apply (growBuf_refines hstored (by simpa using hi)).silent
        rintro _ t ⟨hresources, hkept⟩
        rw [refines_setResources]
        have hgrown := Process.Keeps.setSame (p := t)
          (r := { p.resources with
            conns := p.resources.conns.set slot (conn.append (available.take room)).grow })
          (conn.append (available.take room)).grow hkept
          (by rw [hresources]; exact List.getElem?_set_self hi)
          (by rw [hresources, List.set_set]) (Connection.grow_fd _)
        have hnext : (p.resources.conns.set slot (conn.append (available.take room)).grow)[slot]? =
            some (conn.append (available.take room)).grow := List.getElem?_set_self hi
        apply (ih hgrown hnext (by simpa using hi) (by rw [List.set_set])).bind
        rintro ⟨dropped, chunks⟩ t' reception ⟨hresources', hout, hfd, hkept'⟩
        obtain ⟨rfl, rfl⟩ := Prod.mk.inj hout
        refine refines_pure ⟨?_, rfl, ?_, hkept'⟩
        · rw [hresources', List.set_set]
        · rw [hfd, Connection.grow_fd]
          rfl

/-- The first part of a connection's event. -/
theorem serveReceive_refines {slot : ℕ} {e : Event} {a : Answers} {conn : Connection}
    {E : Exit → Process → Prop} (h : p.Keeps start [])
    (hconn : p.resources.conns[slot]? = some conn) (hopen : 0 < conn.fd) :
    Refines (serveReceive heap slot e a) p (handleReceive slot e a p.resources) (Agrees start)
      E := by
  unfold serveReceive handleReceive
  split
  · rw [connAt_eq hconn, ok_bind]
    apply (recvConn_refines h hconn).bind
    rintro _ t reception ⟨hresources, rfl, hfd, hkept⟩
    dsimp only
    have hi : slot < p.resources.conns.length := (List.getElem?_eq_some_iff.mp hconn).1
    split
    · have hlast : t.resources.conns[slot]? = some reception.conn := by
        rw [hresources]
        exact List.getElem?_set_self hi
      rw [← hresources]
      apply (closeConn_refines hkept hlast (by rwa [hfd])).bind
      rintro _ t' ⟨r, closed⟩ ⟨rfl, rfl, hkept'⟩
      exact refines_pure ⟨rfl, rfl, hkept'⟩
    · exact refines_pure ⟨hresources, rfl, hkept⟩
  · exact refines_pure ⟨rfl, rfl, h⟩

/-! ## Termination and errors -/

variable {verify : PubKey → Bytes → Bytes → Bool}

/-- Keys are no part of the account. -/
theorem Process.Keeps.setKeys (h : p.Keeps start []) (keys : KeyStore) :
    Process.Keeps start [] { p with resources := { p.resources with toKeyStore := keys } } :=
  ⟨h.balanced, h.length_eq⟩

/-- The loop over the keys. -/
theorem searchKeys_refines {now : ℤ} {buf : Bytes} {bound fuel i : ℕ} (h : p.Keeps start []) :
    Refines (searchKeys verify now buf bound fuel i) p
      (authLoop verify now buf bound fuel i p.resources.toKeyStore)
      (fun out t r => t.resources = { p.resources with toKeyStore := r.1 } ∧ out = r.2 ∧
        t.Keeps start []) fun _ t => t.Keeps start [] := by
  induction fuel generalizing p i with
  | zero => exact refines_fault _
  | succ fuel ih =>
    unfold searchKeys authLoop
    split
    · rw [refines_get]
      apply (refines_lift fun _ _ => h).bind
      rintro key _ _ ⟨rfl, rfl, -⟩
      dsimp only
      split
      · split
        · apply (refines_lift fun _ _ => h).bind
          rintro keys _ _ ⟨rfl, rfl, -⟩
          rw [refines_setKeys]
          exact ih (h.setKeys keys)
        · exact refines_code h
      · apply (refines_lift fun _ _ => h).bind
        rintro script _ _ ⟨rfl, rfl, -⟩
        cases script with
        | some script => exact refines_pure ⟨rfl, rfl, h⟩
        | none => exact ih h
    · exact refines_pure ⟨rfl, rfl, h⟩

/-- The second part of a connection's event, which may end the server. -/
theorem serveTermination_refines {slot : ℕ} {e : Event} {a : Answers} (h : p.Keeps start []) :
    Refines (serveTermination verify slot e a) p (handleTermination verify slot e a p.resources)
      (Agrees start) fun _ t => t.Keeps start [] := by
  unfold serveTermination handleTermination authenticate
  rw [refines_get]
  apply (refines_lift fun c hc => absurd hc (connAt_ne_code _ _ c)).bind
  rintro conn _ _ ⟨rfl, rfl, hfound⟩
  have hconn := connAt_ok hfound
  split
  · rename_i hopen
    apply (searchKeys_refines h).bind
    rintro script ⟨epollFd, socketFd, keysAt, bufsAt, resources, world, allocations, held⟩
      ⟨keys, _⟩ ⟨hresources, rfl, hkept⟩
    obtain rfl : resources = { p.resources with toKeyStore := keys } := hresources
    cases script with
    | some script =>
      dsimp only
      rw [refines_get, refines_setResources]
      have hcounted : Process.Keeps start [] ⟨epollFd, socketFd, keysAt, bufsAt,
          { p.resources with toKeyStore := keys, scriptN := p.resources.scriptN + 1 }, world,
          allocations, held⟩ := ⟨hkept.balanced, hkept.length_eq⟩
      apply (closeConn_refines hcounted hconn hopen.1).bind
      rintro _ t ⟨r, closed⟩ ⟨rfl, rfl, hkept⟩
      exact refines_pure ⟨rfl, rfl, hkept⟩
    | none =>
      apply (closeConn_refines hkept hconn hopen.1).bind
      rintro _ t ⟨r, closed⟩ ⟨rfl, rfl, hkept⟩
      exact refines_pure ⟨rfl, rfl, hkept⟩
  · exact refines_pure ⟨rfl, rfl, h⟩

/-- The third part of a connection's event. -/
theorem serveError_refines {slot : ℕ} {e : Event} {E : Exit → Process → Prop}
    (h : p.Keeps start []) :
    Refines (serveError slot e) p (handleError slot e p.resources) (Agrees start) E := by
  unfold serveError handleError
  rw [refines_get]
  apply (refines_lift fun c hc => absurd hc (connAt_ne_code _ _ c)).bind
  rintro conn _ _ ⟨rfl, rfl, hfound⟩
  split
  · rename_i hopen
    exact closeConn_refines h (connAt_ok hfound) hopen.1
  · exact refines_pure ⟨rfl, rfl, h⟩

/-! ## Events -/

theorem serveConn_refines {slot : ℕ} {e : Event} {a : Answers} (h : p.Keeps start []) :
    Refines (serveConn heap verify slot e a) p (handleConn verify slot e a p.resources)
      (Agrees start) fun _ t => t.Keeps start [] := by
  unfold serveConn handleConn
  rw [refines_get]
  apply (refines_lift fun c hc => absurd hc (connAt_ne_code _ _ c)).bind
  rintro conn _ _ ⟨rfl, rfl, hfound⟩
  apply (refines_lift fun c hc => absurd hc (assertThat_ne_code _ c)).bind
  rintro _ _ _ ⟨rfl, rfl, hasserted⟩
  have hopen : 0 < conn.fd := of_decide_eq_true (assertThat_ok hasserted)
  apply (serveReceive_refines h (connAt_ok hfound) hopen).bind
  rintro _ t ⟨_, received⟩ ⟨rfl, rfl, hkept⟩
  apply (serveTermination_refines hkept).bind
  rintro _ t ⟨_, terminated⟩ ⟨rfl, rfl, hkept⟩
  apply (serveError_refines hkept).bind
  rintro _ t ⟨_, closed⟩ ⟨rfl, rfl, hkept⟩
  exact refines_pure ⟨rfl, rfl, hkept⟩

/-- An event, whichever way it ends. -/
theorem serveEvent_refines (e : Event) (a : Answers) (h : p.Keeps start []) :
    Refines (serveEvent heap verify e a) p (handleEvent verify e a p.resources) (Agrees start)
      fun _ t => t.Keeps start [] := by
  unfold serveEvent handleEvent
  split
  · exact serveAccept_refines h
  split
  · exact serveConn_refines h
  · exact refines_code h

/-! ## Runs -/

/-- Behind a handled event. -/
theorem Daemon.Serves.advance {d : Daemon} {s : Server} {events : List Event}
    {m : Program Exit (List Observation)} {q : Served (Resources × List Observation)}
    (h : d.Serves start s)
    (hm : Refines m d.process q (Agrees start) fun _ t => t.Keeps start []) :
    (d.advance events (m.exec d.process)).Serves start (s.advance events q) := by
  unfold Refines at hm
  generalize m.exec d.process = out at hm
  obtain ⟨result, t⟩ := out
  cases result with
  | ok obs =>
    cases q with
    | ok r =>
      obtain ⟨hresources, rfl, hkept⟩ := hm
      exact ⟨fun _ => hresources.symm, rfl, congrArg (· ++ r.2) h.log, h.phase, fun _ => hkept⟩
    | error stop => cases stop <;> exact hm.elim
  | error stop =>
    cases q with
    | ok r => cases stop <;> exact hm.elim
    | error stop' =>
      cases stop with
      | code reason =>
        cases stop' with
        | code reason' =>
          obtain ⟨rfl, hkept⟩ := hm
          exact ⟨(nomatch ·), h.pending, h.log, rfl, fun _ => hkept⟩
        | fault fault => exact hm.elim
      | fault fault =>
        cases stop' with
        | code reason => exact hm.elim
        | fault fault' =>
          obtain rfl : fault = fault' := hm
          exact ⟨(nomatch ·), h.pending, h.log, rfl, fun hall => absurd rfl (hall fault)⟩

/-- The process and the server take the same steps. -/
theorem Daemon.Serves.step {d : Daemon} {s : Server} (h : d.Serves start s) (l : Label) :
    Option.Rel (Daemon.Serves start) (d.step heap verify l) (s.step verify l) := by
  cases l with
  | waitFailed =>
    unfold Daemon.step Server.step
    rw [h.phase, h.pending]
    dsimp only
    split
    · rename_i hidle
      exact .some ⟨(nomatch ·), rfl, h.log, rfl, fun _ => h.keeps (by simp [hidle.1])⟩
    · exact .none
  | wait events =>
    unfold Daemon.step Server.step
    rw [h.phase, h.pending]
    dsimp only
    split
    · exact .some ⟨h.resources, rfl, h.log, rfl, h.keeps⟩
    · exact .none
  | handle a =>
    unfold Daemon.step Server.step
    rw [h.phase, h.pending]
    cases d.pending with
    | nil => exact .none
    | cons e events =>
      dsimp only
      split
      · rename_i hrunning
        rw [h.resources hrunning]
        exact .some (h.advance (serveEvent_refines e a (h.keeps (by simp [hrunning]))))
      · exact .none

/-- Every run of the process is a run of the server. -/
theorem Daemon.lockstep : Lockstep (fun d l d' => Daemon.step heap verify d l = some d')
    (fun s l s' => s.step verify l = some s') (Daemon.Serves start) := by
  intro d l d' s h hstep
  have hrel : Option.Rel (Daemon.Serves start) (d.step heap verify l) (s.step verify l) := h.step l
  rw [hstep] at hrel
  cases hserver : s.step verify l with
  | none =>
    rw [hserver] at hrel
    cases hrel
  | some s' =>
    rw [hserver] at hrel
    cases hrel with
    | some hserves => exact ⟨s', hserver, hserves⟩

/-- Every run of the server is a run of the process. -/
theorem Server.lockstep : Lockstep (fun s l s' => Server.step verify s l = some s')
    (fun d l d' => Daemon.step heap verify d l = some d')
    (fun s d => Daemon.Serves start d s) := by
  intro s l s' d h hstep
  have hrel : Option.Rel (Daemon.Serves start) (d.step heap verify l) (s.step verify l) := h.step l
  rw [hstep] at hrel
  cases hdaemon : d.step heap verify l with
  | none =>
    rw [hdaemon] at hrel
    cases hrel
  | some d' =>
    rw [hdaemon] at hrel
    cases hrel with
    | some hserves => exact ⟨d', hdaemon, hserves⟩

end X509Server
