import X509Server.Analysis.AuthSpec
import X509Server.Analysis.ServerSpec
import X509Server.Interface.Decisions

/-!
# Decisions are exact

The search of `authLoop_scan` finds a script if and only if one of the unexpired keys accepts
the message, and what the loop does past the end of the keys in use cannot change that: a
script it returned there would be one that an unexpired key accepts, and all of these have
been tried.  So the loop is right about the message even where it loses keys.
-/

set_option autoImplicit false

namespace X509Server

open Checked

section Decisions

variable (verify : PubKey → Bytes → Bytes → Bool) {now : ℤ} {buf : Bytes}

/-! ## One key -/

/-- `authenticate` for one key is acceptance. -/
theorem PubKey.authenticate_eq_some_iff (key : PubKey) (buf script : Bytes) :
    key.authenticate verify buf = some script ↔ key.Accepts verify buf script := by
  unfold PubKey.authenticate PubKey.split
  constructor
  · intro h
    by_cases hsplit : key.expSigSize + 1 ≤ buf.length ∧ buf[key.expSigSize]? = some 10
    · rw [if_pos hsplit] at h
      dsimp only at h
      split at h
      · rename_i hverify
        obtain rfl := Option.some.inj h
        refine ⟨buf.take key.expSigSize, ?_, by simp; omega, hverify⟩
        have hget : buf.drop key.expSigSize = 10 :: buf.drop (key.expSigSize + 1) := by
          obtain ⟨hlt, hbyte⟩ := List.getElem?_eq_some_iff.mp hsplit.2
          rw [List.drop_eq_getElem_cons hlt, hbyte]
        rw [← hget, List.take_append_drop]
      · cases h
    · rw [if_neg hsplit] at h
      cases h
  · rintro ⟨sig, rfl, hsig, hverify⟩
    have hlen : key.expSigSize + 1 ≤ (sig ++ 10 :: script).length := by
      rw [← hsig]
      simp
    have hbyte : (sig ++ 10 :: script)[key.expSigSize]? = some 10 := by
      rw [← hsig]
      simp
    have htake : (sig ++ 10 :: script).take key.expSigSize = sig := by
      rw [← hsig]
      simp
    have hdrop : (sig ++ 10 :: script).drop (key.expSigSize + 1) = script := by
      rw [← hsig]
      simp [List.drop_append]
    rw [if_pos ⟨hlen, hbyte⟩, htake, hdrop]
    exact if_pos hverify

/-- `Authentic` in terms of acceptance. -/
theorem authentic_iff (keys : List PubKey) :
    Authentic verify now buf keys ↔
      ∃ key ∈ keys, now ≤ key.expiry ∧ ∃ script, key.Accepts verify buf script := by
  unfold Authentic
  simp only [Option.isSome_iff_exists, PubKey.authenticate_eq_some_iff]

/-! ## The loop -/

/-- The loop returns a script exactly if an unexpired key accepts the message. -/
theorem authenticate_exact {s : KeyStore} (hs : s.keysSize ≤ s.keys.length) :
    (∃ s' script, authenticate verify now buf s = .ok (s', some script)) ↔
      Authentic verify now buf s.loaded := by
  constructor
  · rintro ⟨s', script, hok⟩
    obtain ⟨-, -, hscript⟩ := Safe.of_ok (authenticate_safe verify hs) hok
    obtain ⟨key, hmem, hvalid, hauth⟩ := hscript script rfl
    exact ⟨key, hmem, hvalid, by rw [hauth]; rfl⟩
  · intro hauthentic
    rcases authLoop_scan verify (s.scanned_start verify hs now buf)
      (show s.keysSize - 0 + s.keysSize < s.keysSize + s.keysSize + 1 by omega) with
      ⟨s', script, j, hok, -, -⟩ | ⟨-, hall⟩ | ⟨s', fuel, -, harrived, -⟩
    · exact ⟨s', script, hok⟩
    · obtain ⟨key, hmem, hvalid, -⟩ := hauthentic
      have := hall key hmem
      omega
    · exact absurd hauthentic (harrived.not_authentic verify)

/-- Slots behind the bound play no part. -/
theorem authLoop_append (bound : ℕ) (keys extra : List PubKey) (hbound : bound ≤ keys.length)
    (fuel i n : ℕ) (hn : n ≤ bound) :
    authLoop verify now buf bound fuel i ⟨keys ++ extra, n⟩ =
      (authLoop verify now buf bound fuel i ⟨keys, n⟩).map fun r =>
        (⟨r.1.keys ++ extra, r.1.keysSize⟩, r.2) := by
  induction fuel generalizing i n keys with
  | zero => rfl
  | succ fuel ih =>
    unfold authLoop
    by_cases hi : i < bound
    · have hlt : i < keys.length := by omega
      rw [if_pos hi, if_pos hi, slotAt_append hlt, slotAt_eq hlt, ok_bind, ok_bind]
      by_cases hexpired : now > keys[i].expiry
      · rw [if_pos hexpired, if_pos hexpired]
        by_cases hmany : n > 1
        · obtain ⟨s', hremove, hsize', hlen', -, -⟩ :=
            KeyStore.swapRemove_spec Exit ⟨keys, n⟩ hi (by dsimp only; omega) hn hbound
          dsimp only at hsize' hlen'
          rw [if_pos hmany, if_pos hmany, swapRemove_append hlt (by omega) (by omega), hremove]
          exact ih s'.keys (by omega) i s'.keysSize (by omega)
        · rw [if_neg hmany, if_neg hmany]
          rfl
      · rw [if_neg hexpired, if_neg hexpired]
        rw [PubKey.readScript_eq, ok_bind, ok_bind]
        cases keys[i].authenticate verify buf with
        | some script => rfl
        | none => exact ih keys hbound (i + 1) n hn
    · rw [if_neg hi, if_neg hi]
      rfl

/-- The loop works on the keys in use, and leaves the rest of the array as it is. -/
theorem authenticate_loaded {s : KeyStore} (hs : s.keysSize ≤ s.keys.length) :
    authenticate verify now buf s =
      (authenticate verify now buf ⟨s.loaded, s.keysSize⟩).map fun r =>
        (⟨r.1.keys ++ s.keys.drop s.keysSize, r.1.keysSize⟩, r.2) := by
  have hsplit : s = ⟨s.loaded ++ s.keys.drop s.keysSize, s.keysSize⟩ := by
    rw [KeyStore.loaded, List.take_append_drop]
  have hbound : s.keysSize ≤ s.loaded.length := by
    rw [KeyStore.loaded, List.length_take]
    omega
  unfold authenticate
  conv_lhs => rw [hsplit]
  exact authLoop_append verify s.keysSize s.loaded _ hbound _ 0 s.keysSize (le_refl _)

/-! ## The handling of a terminated connection -/

theorem scriptsExecuted_decisionLog (slot n : ℕ) (script : Option Bytes) :
    scriptsExecuted (decisionLog slot now n script) = script.toList := by
  cases script <;> rfl

/-- A terminated connection is authenticated, observed and closed. -/
theorem handleTermination_eq {slot : ℕ} {e : Event} {a : Answers} {r : Resources}
    {conn : Connection} (hconn : r.conns[slot]? = some conn) (hopen : 0 < conn.fd)
    (hended : (e.epollrdhup || e.epollhup) = true) (htotal : 0 < r.connsTotal) :
    handleTermination verify slot e a r =
      authenticate verify a.time conn.contents r.toKeyStore >>= fun p =>
        .ok ({ r with
          toKeyStore := p.1
          scriptN := if p.2.isSome then r.scriptN + 1 else r.scriptN
          conns := r.conns.set slot { conn with fd := 0, bufSize := 0, openTime := 0 }
          connsTotal := r.connsTotal - 1 },
          decisionLog slot a.time (r.scriptN + 1) p.2) := by
  have hat (keys : KeyStore) (n : ℕ) : connAt
      ({ r with toKeyStore := keys, scriptN := n } : Resources).conns slot = .ok conn := by
    unfold connAt
    rw [hconn]
  have htest : conn.fd > 0 ∧ (e.epollrdhup || e.epollhup) = true := ⟨hopen, hended⟩
  unfold handleTermination
  rw [hat r.toKeyStore r.scriptN, ok_bind, if_pos htest]
  refine bind_congr fun p => ?_
  obtain ⟨keys, script⟩ := p
  cases script with
  | none =>
    dsimp only
    unfold Resources.freeConn
    rw [hat keys r.scriptN, ok_bind, usub_eq (by dsimp only; omega), ok_bind, ok_bind]
    rfl
  | some script =>
    dsimp only
    unfold Resources.freeConn
    rw [hat keys (r.scriptN + 1), ok_bind, usub_eq (by dsimp only; omega), ok_bind, ok_bind]
    rfl

/-- Handling a terminated connection executes the right script or none. -/
theorem handleTermination_decidesRightly {slot : ℕ} {e : Event} {a : Answers} {r : Resources}
    {conn : Connection} (hs : r.keysSize ≤ r.keys.length) (hconn : r.conns[slot]? = some conn)
    (hopen : 0 < conn.fd) (hended : (e.epollrdhup || e.epollhup) = true)
    (htotal : 0 < r.connsTotal) :
    DecidesRightly verify a.time conn.contents r.loaded
      (handleTermination verify slot e a r) := by
  have hexact := @authenticate_exact verify a.time conn.contents r.toKeyStore hs
  have hsafe := @authenticate_safe verify a.time conn.contents r.toKeyStore hs
  rw [authentic_iff] at hexact
  have hnone (h : ¬ ∃ s' script, authenticate verify a.time conn.contents r.toKeyStore =
      .ok (s', some script)) : ∀ key ∈ r.loaded, a.time ≤ key.expiry →
        ∀ script, ¬ key.Accepts verify conn.contents script := by
    intro key hmem hvalid script haccepts
    exact h (hexact.mpr ⟨key, hmem, hvalid, script, haccepts⟩)
  rw [handleTermination_eq verify hconn hopen hended htotal]
  cases hauth : authenticate verify a.time conn.contents r.toKeyStore with
  | error stop =>
    cases stop with
    | fault fault => exact hsafe.ne_fault fault hauth
    | code reason =>
      apply hnone
      rintro ⟨s', script, hok⟩
      rw [hauth] at hok
      cases hok
  | ok p =>
    obtain ⟨keys, script⟩ := p
    obtain ⟨-, -, hscript⟩ := hsafe.of_ok hauth
    change _ ∨ _
    rw [scriptsExecuted_decisionLog]
    cases script with
    | some script =>
      obtain ⟨key, hmem, hvalid, haccepts⟩ := hscript script rfl
      exact Or.inl ⟨key, hmem, hvalid, script,
        (key.authenticate_eq_some_iff verify _ _).mp haccepts, rfl⟩
    | none =>
      refine Or.inr ⟨rfl, hnone ?_⟩
      rintro ⟨s', script, hok⟩
      rw [hauth] at hok
      cases hok

/-- The decision about a terminated connection is exact: it executes one script, which an
unexpired key accepts, exactly if there is one; it stops, reads nothing outside the buffer
and uses no slot but those of the keys in use; and it does not depend on their order. -/
theorem decision_exact (verify : PubKey → Bytes → Bytes → Bool) (now : ℤ) (buf : Bytes)
    (s : KeyStore) (hs : s.keysSize ≤ s.keys.length) :
    (∀ (slot : ℕ) (e : Event) (a : Answers) (r : Resources) (conn : Connection),
      r.toKeyStore = s → a.time = now → r.conns[slot]? = some conn → conn.contents = buf →
      0 < conn.fd → (e.epollrdhup || e.epollhup) = true → 0 < r.connsTotal →
      DecidesRightly verify now buf s.loaded (handleTermination verify slot e a r)) ∧
    (∀ key : PubKey, key.readSplit buf = .ok (key.split buf)) ∧
    authenticate verify now buf s =
      (authenticate verify now buf ⟨s.loaded, s.keysSize⟩).map (fun r =>
        (⟨r.1.keys ++ s.keys.drop s.keysSize, r.1.keysSize⟩, r.2)) ∧
    (∀ fault, authenticate verify now buf ⟨s.loaded, s.keysSize⟩ ≠ .error (.fault fault)) ∧
    ∀ t : KeyStore, t.keysSize ≤ t.keys.length → t.loaded.Perm s.loaded →
      ((∃ s' script, authenticate verify now buf s = .ok (s', some script)) ↔
        ∃ t' script, authenticate verify now buf t = .ok (t', some script)) := by
  refine ⟨?_, fun key => key.readSplit_eq buf, authenticate_loaded verify hs, ?_, ?_⟩
  · intro slot e a r conn hkeys htime hconn hcontents hopen hended htotal
    subst hkeys htime hcontents
    exact handleTermination_decidesRightly verify hs hconn hopen hended htotal
  · have hsize : s.keysSize ≤ s.loaded.length := by
      rw [KeyStore.loaded, List.length_take]
      omega
    intro fault
    exact (authenticate_safe verify hsize).ne_fault fault
  · intro t ht hperm
    rw [authenticate_exact verify hs, authenticate_exact verify ht, authentic_iff, authentic_iff]
    simp only [hperm.mem_iff]

/-- An expired key, a valid one, and a connection with a newline and a script. -/
theorem decision_exact_two :
    DecidesRightly (fun _ _ _ => true) 1 [10, 42] (keysUntil [0, 5]).loaded
      (handleTermination (fun _ _ _ => true) 0 ⟨0, false, true, false, false⟩
        ⟨-1, true, 0, fun _ => 0, [], 1⟩
        { toKeyStore := keysUntil [0, 5]
          scriptN := 0
          conns := [⟨5, 0, 2, 1024, some fun j => if j = 0 then 10 else 42⟩]
          connsTotal := 1 }) := by
  have hexact := decision_exact (fun _ _ _ => true) 1 [10, 42] (keysUntil [0, 5]) (by decide)
  exact hexact.1 0 _ _ _ _ rfl rfl rfl rfl (by decide) rfl (by decide)

end Decisions

end X509Server
