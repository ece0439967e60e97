import X509Server.Analysis.DecisionSpec
import X509Server.Analysis.ExpirySpec
import X509Server.Interface.Attrition

/-!
# Attrition

The loop over the keys in two parts: up to the end of the keys in use it is a search
(`authLoop_scan`), and behind that end it takes one key out of use for each that it has
removed before (`KeyStore.Overrun.authLoop_eq`).  So a message that nobody has signed costs
two keys for each expired one, and ends the server where half of the keys have expired.

Over a run this is a potential: the keys in use, less twice the expired ones among them, are
never fewer than they were among the keys at the start.
-/

set_option autoImplicit false

namespace X509Server

open Checked Runs

section Loop

variable (verify : PubKey → Bytes → Bytes → Bool) {now : ℤ} {buf : Bytes} {bound : ℕ}
  {keys : List PubKey}

/-! ## Behind the keys in use -/

/-- The keys in use are unexpired and have been tried, and what the loop has still in front
of it are removed keys. -/
structure KeyStore.Overrun (s : KeyStore) (now : ℤ) (buf : Bytes) (bound i : ℕ)
    (keys : List PubKey) : Prop where
  holds : s.Holds bound keys
  pos : 0 < s.keysSize
  size_le : s.keysSize ≤ i
  idx_le : i ≤ bound
  tried : ∀ j < s.keysSize, ∀ key, s.keys[j]? = some key →
    now ≤ key.expiry ∧ key.authenticate verify buf = none
  removed : ∀ j < bound, i ≤ j → ∀ key, s.keys[j]? = some key → key.expiry < now

theorem KeyStore.Scanned.overrun {s : KeyStore}
    (h : s.Scanned verify now buf bound s.keysSize keys) (hbound : 0 < bound) :
    s.Overrun verify now buf bound s.keysSize keys where
  holds := h.holds
  pos := h.pos hbound
  size_le := le_refl _
  idx_le := h.holds.size_le
  tried := h.tried
  removed := h.removed

/-- A removed key takes the last key in use with it, and the loop moves on. -/
theorem KeyStore.Overrun.remove {s : KeyStore} {i : ℕ}
    (h : s.Overrun verify now buf bound i keys) (fuel : ℕ) (hi : i < bound)
    (hmany : 1 < s.keysSize) :
    ∃ s' : KeyStore, s'.Overrun verify now buf bound (i + 1) keys ∧
      s'.keysSize + 1 = s.keysSize ∧ (∀ j < s'.keysSize, s'.keys[j]? = s.keys[j]?) ∧
      authLoop verify now buf bound (fuel + 2) i s =
        authLoop verify now buf bound fuel (i + 1) s' := by
  have hlen := h.holds.length_le
  have hsize := h.size_le
  have hbound := h.holds.size_le
  obtain ⟨s', hremove, hsize', hlen', hperm, hget⟩ :=
    s.swapRemove_spec Exit hi h.pos hbound hlen
  have hi' : i < s.keys.length := by omega
  have hlast : s.keysSize - 1 < s.keys.length := by omega
  have hexpired : now > s.keys[i].expiry :=
    h.removed i hi (le_refl _) _ (List.getElem?_eq_getElem hi')
  obtain ⟨hvalid, hrefuses⟩ :=
    h.tried (s.keysSize - 1) (by omega) _ (List.getElem?_eq_getElem hlast)
  have hi'' : i < s'.keys.length := by omega
  have hmoved : s'.keys[i] = s.keys[s.keysSize - 1] := by
    have hat := hget i
    rw [if_neg (by omega), if_pos rfl, List.getElem?_eq_getElem hlast,
      List.getElem?_eq_getElem (by omega)] at hat
    exact Option.some.inj hat
  have hkept : ∀ j < s'.keysSize, s'.keys[j]? = s.keys[j]? := by
    intro j hj
    rw [hget, if_neg (by omega), if_neg (by omega)]
  refine ⟨s', ?_, by omega, hkept, ?_⟩
  · exact
      { holds := ⟨by omega, by omega, hperm.trans h.holds.perm⟩
        pos := by omega
        size_le := by omega
        idx_le := hi
        tried := fun j hj key hkey => h.tried j (by omega) key ((hkept j hj).symm.trans hkey)
        removed := fun j hj hle key hkey => by
          rw [hget, if_neg (by omega), if_neg (by omega)] at hkey
          exact h.removed j hj (by omega) key hkey }
  · rw [authLoop, if_pos hi, slotAt_eq hi', ok_bind, if_pos hexpired, if_pos hmany, hremove,
      ok_bind, authLoop, if_pos hi, slotAt_eq (by omega), ok_bind, hmoved, if_neg (by omega),
      PubKey.readScript_eq, hrefuses, ok_bind]

/-- The rest of the loop: one key in use for each removed one, or the end of the server. -/
theorem KeyStore.Overrun.authLoop_eq {s : KeyStore} {i fuel : ℕ}
    (h : s.Overrun verify now buf bound i keys) (hfuel : bound - i + s.keysSize < fuel) :
    if s.keysSize ≤ bound - i then
      authLoop verify now buf bound fuel i s = .error (.code (.allCertificatesExpired now))
    else ∃ t : KeyStore, authLoop verify now buf bound fuel i s = .ok (t, none) ∧
      t.Holds bound keys ∧ t.keysSize + (bound - i) = s.keysSize ∧
      ∀ j < t.keysSize, t.keys[j]? = s.keys[j]? := by
  have hpos := h.pos
  have hidx := h.idx_le
  -- the induction is on the number of removed keys that are still in front of the loop
  induction hd : bound - i generalizing i s fuel with
  | zero =>
    obtain ⟨fuel', rfl⟩ : ∃ fuel', fuel = fuel' + 1 := ⟨fuel - 1, by omega⟩
    rw [if_neg (by omega)]
    refine ⟨s, ?_, h.holds, by omega, fun j hj => rfl⟩
    rw [authLoop, if_neg (by omega)]
  | succ d ih =>
    have hi : i < bound := by omega
    rcases Nat.lt_or_ge 1 s.keysSize with hmany | hone
    · obtain ⟨fuel', rfl⟩ : ∃ fuel', fuel = fuel' + 2 := ⟨fuel - 2, by omega⟩
      obtain ⟨s', h', hsize', hkept, hloop⟩ := h.remove verify fuel' hi hmany
      have hfuel' : bound - (i + 1) + s'.keysSize < fuel' := by omega
      have hrest := ih h' hfuel' h'.pos h'.idx_le (by omega)
      rw [hloop]
      split at hrest
      · rw [if_pos (by omega)]
        exact hrest
      · rw [if_neg (by omega)]
        obtain ⟨t, hok, hholds, hsize, hsame⟩ := hrest
        refine ⟨t, hok, hholds, by omega, fun j hj => ?_⟩
        exact (hsame j hj).trans (hkept j (by omega))
    · have hlen := h.holds.length_le
      have hi' : i < s.keys.length := by omega
      have hexpired : now > s.keys[i].expiry :=
        h.removed i hi (le_refl _) _ (List.getElem?_eq_getElem hi')
      obtain ⟨fuel', rfl⟩ : ∃ fuel', fuel = fuel' + 1 := ⟨fuel - 1, by omega⟩
      rw [if_pos (by omega), authLoop, if_pos hi, slotAt_eq hi', ok_bind, if_pos hexpired,
        if_neg (by omega)]

/-! ## One message -/

theorem expiredCount_append (now : ℤ) (ks ks' : List PubKey) :
    expiredCount now (ks ++ ks') = expiredCount now ks + expiredCount now ks' :=
  List.countP_append

theorem expiredCount_eq_zero {now : ℤ} {ks : List PubKey} :
    expiredCount now ks = 0 ↔ ∀ key ∈ ks, now ≤ key.expiry := by
  simp only [expiredCount, List.countP_eq_zero, decide_eq_true_eq, not_lt]

theorem expiredCount_eq_length {now : ℤ} {ks : List PubKey} :
    expiredCount now ks = ks.length ↔ ∀ key ∈ ks, key.expiry < now := by
  simp only [expiredCount, List.countP_eq_length, decide_eq_true_eq]

theorem KeyStore.Holds.loaded_subperm {s : KeyStore} (h : s.Holds bound keys) :
    s.loaded.Subperm keys :=
  (List.sublist_append_left _ _).subperm.trans h.split.subperm

theorem KeyStore.Holds.getElem?_of_loaded {s : KeyStore} (h : s.Holds bound keys) {key : PubKey}
    (hmem : key ∈ s.loaded) : ∃ j < s.keysSize, s.keys[j]? = some key := by
  obtain ⟨j, hj⟩ := List.mem_iff_getElem?.mp hmem
  have hlt := (List.getElem?_eq_some_iff.mp hj).1
  rw [h.loaded_length] at hlt
  rw [KeyStore.loaded, List.getElem?_take_of_lt hlt] at hj
  exact ⟨j, hlt, hj⟩

theorem KeyStore.Scanned.unexpired {s : KeyStore}
    (h : s.Scanned verify now buf bound s.keysSize keys) : ∀ key ∈ s.loaded, now ≤ key.expiry := by
  intro key hmem
  obtain ⟨j, hlt, hj⟩ := h.holds.getElem?_of_loaded hmem
  exact (h.tried j hlt key hj).1

/-- During the search only expired keys are removed. -/
theorem KeyStore.Scanned.expired_of_removed {s : KeyStore} {i : ℕ}
    (h : s.Scanned verify now buf bound i keys) :
    ∀ key ∈ (s.keys.take bound).drop s.keysSize, key.expiry < now := by
  intro key hmem
  obtain ⟨j, hj⟩ := List.mem_iff_getElem?.mp hmem
  rw [List.getElem?_drop] at hj
  have hlt := (List.getElem?_eq_some_iff.mp hj).1
  rw [List.length_take] at hlt
  rw [List.getElem?_take_of_lt (by omega)] at hj
  exact h.removed _ (by omega) (Nat.le_add_right _ _) key hj

/-- At the end of the search the removed keys are the expired ones. -/
theorem KeyStore.Scanned.expiredCount_eq {s : KeyStore}
    (h : s.Scanned verify now buf bound s.keysSize keys) :
    s.keysSize + expiredCount now keys = bound := by
  have hlen := h.holds.length_le
  have hsize := h.holds.size_le
  have hloaded : expiredCount now s.loaded = 0 :=
    expiredCount_eq_zero.mpr (h.unexpired verify)
  have hremoved := expiredCount_eq_length.mpr (h.expired_of_removed verify)
  have hperm : expiredCount now _ = expiredCount now keys := h.holds.split.countP_eq _
  rw [expiredCount_append, hloaded, hremoved, List.length_drop, List.length_take] at hperm
  omega

/-- Keys in front are the keys in use of a smaller store. -/
theorem KeyStore.loaded_sublist {s t : KeyStore} (hsize : t.keysSize ≤ s.keysSize)
    (hsame : ∀ j < t.keysSize, t.keys[j]? = s.keys[j]?) : t.loaded.Sublist s.loaded := by
  have htake : t.loaded = s.loaded.take t.keysSize := by
    refine List.ext_getElem? fun j => ?_
    rw [KeyStore.loaded, KeyStore.loaded, List.take_take, Nat.min_eq_left hsize,
      List.getElem?_take, List.getElem?_take]
    split
    · exact hsame j ‹_›
    · rfl
  rw [htake]
  exact List.take_sublist _ _

/-- What a message that no unexpired key accepts does to the keys. -/
theorem authenticate_attrition (s : KeyStore) (hpos : 0 < s.keysSize)
    (hs : s.keysSize ≤ s.keys.length) (hnone : ¬ Authentic verify now buf s.loaded) :
    Attrition now s (authenticate verify now buf s) := by
  have hscan := authLoop_scan verify (s.scanned_start verify hs now buf)
    (show s.keysSize - 0 + s.keysSize < s.keysSize + s.keysSize + 1 by omega)
  have hloaded := (s.holds_loaded hs).loaded_length
  unfold authenticate
  rcases hscan with ⟨-, -, -, -, -, hauth⟩ | ⟨hr, hall⟩ | ⟨t, fuel, hr, ht, hfuel⟩
  · exact absurd hauth hnone
  · rw [hr]
    have hcount := expiredCount_eq_length.mpr hall
    exact ⟨rfl, by omega⟩
  · rw [hr]
    have hcount := ht.expiredCount_eq verify
    have hsize := ht.holds.size_le
    have hleft : s.keysSize - t.keysSize + t.keysSize < fuel := by omega
    have hrest := (ht.overrun verify hpos).authLoop_eq verify hleft
    split at hrest
    · rw [hrest]
      exact ⟨rfl, by omega⟩
    · obtain ⟨t', hok, hholds, hsize', hsame⟩ := hrest
      rw [hok]
      have hsub := KeyStore.loaded_sublist (by omega) hsame
      exact ⟨rfl, by omega, by omega, fun key hmem => ht.unexpired verify key (hsub.subset hmem),
        hholds.loaded_subperm⟩

/-- A store with an expired key between two unexpired ones. -/
theorem authenticate_attrition_three :
    Attrition 1 (keysUntil [2, 0, 3])
      (authenticate (fun _ _ _ => true) 1 [] (keysUntil [2, 0, 3])) := by
  refine authenticate_attrition _ _ (by decide) (by decide) ?_
  rintro ⟨key, -, -, haccepts⟩
  exact absurd haccepts (by simp [PubKey.authenticate, PubKey.split])

/-! ## Potential -/

/-- The keys in use less twice the expired ones, for a later time, against another store. -/
def Wears (latest : ℤ) (s t : KeyStore) : Prop :=
  s.keysSize + 2 * expiredCount latest t.loaded ≤ t.keysSize + 2 * expiredCount latest s.loaded

theorem expiredCount_mono {now latest : ℤ} (h : now ≤ latest) (ks : List PubKey) :
    expiredCount now ks ≤ expiredCount latest ks := by
  refine List.countP_mono_left fun key _ hexpired => ?_
  rw [decide_eq_true_eq] at hexpired ⊢
  omega

/-- What is lost in front of the later time are expired keys, and one for each of them. -/
theorem Attrition.wears {s t : KeyStore} {script : Option Bytes} {latest : ℤ}
    (h : Attrition now s (.ok (t, script))) (hlatest : now ≤ latest) : Wears latest s t := by
  obtain ⟨-, hsize, -, hvalid, left, hleft, hsub⟩ := h
  obtain ⟨rest, hrest⟩ := hsub.exists_perm_append
  have hperm := hrest.trans (hleft.append_right rest)
  have hnow : expiredCount now s.loaded = _ := hperm.countP_eq _
  have hlater : expiredCount latest s.loaded = _ := hperm.countP_eq _
  have hrest := expiredCount_mono hlatest rest
  have hzero := expiredCount_eq_zero.mpr hvalid
  unfold expiredCount at hnow hlater hrest hzero hsize
  rw [List.countP_append] at hnow hlater
  unfold Wears expiredCount
  omega

theorem KeyStore.Scanned.wears {s t : KeyStore} {i : ℕ} {latest : ℤ}
    (h : t.Scanned verify now buf s.keysSize i s.loaded) (hlatest : now ≤ latest) :
    Wears latest s t := by
  have hcount : expiredCount latest s.loaded = _ := h.holds.split.symm.countP_eq _
  have hremoved := expiredCount_eq_length.mpr fun key hmem =>
    (h.expired_of_removed verify key hmem).trans_le hlatest
  have hlen := h.holds.length_le
  rw [List.length_drop, List.length_take] at hremoved
  rw [List.countP_append] at hcount
  unfold Wears
  unfold expiredCount at hremoved hcount ⊢
  omega

/-- One decision, whatever it is. -/
theorem authenticate_wears {s t : KeyStore} {script : Option Bytes} {latest : ℤ}
    (hpos : 0 < s.keysSize) (hs : s.keysSize ≤ s.keys.length) (hlatest : now ≤ latest)
    (hok : authenticate verify now buf s = .ok (t, script)) :
    Wears latest s t ∧ 0 < t.keysSize := by
  by_cases hauth : Authentic verify now buf s.loaded
  · have hscan := authLoop_scan verify (s.scanned_start verify hs now buf)
      (show s.keysSize - 0 + s.keysSize < s.keysSize + s.keysSize + 1 by omega)
    rcases hscan with ⟨s', script', j, hr, ht, -⟩ | ⟨-, hall⟩ | ⟨s', -, -, ht, -⟩
    · obtain ⟨rfl, -⟩ := Prod.mk.inj (Except.ok.inj (hok.symm.trans hr))
      exact ⟨ht.wears verify hlatest, ht.pos hpos⟩
    · obtain ⟨key, hmem, hvalid, -⟩ := hauth
      have := hall key hmem
      omega
    · exact absurd hauth (ht.not_authentic verify)
  · have hfate := authenticate_attrition verify s hpos hs hauth
    rw [hok] at hfate
    exact ⟨hfate.wears hlatest, hfate.2.2.1⟩

/-- The server ends only where half of the keys in use have expired. -/
theorem authenticate_ended {s : KeyStore} {reason : Exit} (hpos : 0 < s.keysSize)
    (hs : s.keysSize ≤ s.keys.length)
    (hend : authenticate verify now buf s = .error (.code reason)) :
    reason = .allCertificatesExpired now ∧ s.keysSize ≤ 2 * expiredCount now s.loaded := by
  have hnone : ¬ Authentic verify now buf s.loaded := by
    intro hauth
    obtain ⟨s', script, hok⟩ := (authenticate_exact verify hs).mpr hauth
    rw [hend] at hok
    cases hok
  have hfate := authenticate_attrition verify s hpos hs hnone
  rw [hend] at hfate
  exact hfate

end Loop

/-! ## Runs -/

section Runs

variable {verify : PubKey → Bytes → Bytes → Bool} {latest : ℤ} {store : KeyStore}

/-- The potential has not fallen since the start. -/
structure Worn (latest : ℤ) (start : KeyStore) (s : Server) : Prop where
  size_le : s.resources.keysSize ≤ s.resources.keys.length
  pos : s.phase = .running → 0 < s.resources.keysSize
  wears : (∀ t ∈ timesRead s.log, t ≤ latest) → Wears latest start s.resources.toKeyStore
  ended : ∀ now, s.phase = .exited (.allCertificatesExpired now) → now ≤ latest →
    s.resources.keysSize ≤ 2 * expiredCount latest s.resources.loaded

theorem Worn.start (h : store.keysSize ≤ store.keys.length) :
    Worn latest store (Server.start store) where
  size_le := h
  pos := by
    unfold Server.start
    dsimp only
    split
    · intro hphase
      cases hphase
    · intro _
      exact Nat.pos_of_ne_zero ‹_›
  wears _ := le_refl _
  ended := by
    unfold Server.start
    dsimp only
    split
    · intro now hphase
      cases hphase
    · intro now hphase
      cases hphase

/-- Steps that leave the keys and the log. -/
theorem Worn.of_eq {s t : Server} (h : Worn latest store s)
    (hresources : t.resources = s.resources) (hlog : t.log = s.log)
    (hrunning : t.phase = .running → s.phase = .running)
    (hexit : ∀ now, t.phase = .exited (.allCertificatesExpired now) → s.phase = t.phase) :
    Worn latest store t where
  size_le := by
    rw [hresources]
    exact h.size_le
  pos hphase := by
    rw [hresources]
    exact h.pos (hrunning hphase)
  wears := by
    rw [hresources, hlog]
    exact h.wears
  ended now hphase := by
    rw [hresources]
    exact h.ended now ((hexit now hphase).trans hphase)

theorem Wears.trans {s t u : KeyStore} (h : Wears latest s t) (h' : Wears latest t u) :
    Wears latest s u := by
  unfold Wears at *
  omega

/-- An event that does not end the server. -/
theorem Worn.advance {s : Server} {e : Event} {a : Answers} {events : List Event}
    {r : Resources} {obs : List Observation} (h : Worn latest store s)
    (hrunning : s.phase = .running) (houtcome : Outcome verify a e.data e s.resources r obs) :
    Worn latest store (s.advance events (.ok (r, obs))) := by
  have htimes : ∀ obs' : List Observation, (∀ t ∈ timesRead (s.log ++ obs'), t ≤ latest) →
      (∀ t ∈ timesRead s.log, t ≤ latest) ∧ ∀ t ∈ timesRead obs', t ≤ latest := by
    intro obs' hall
    rw [timesRead_append] at hall
    exact ⟨fun t ht => hall t (List.mem_append_left _ ht),
      fun t ht => hall t (List.mem_append_right _ ht)⟩
  have hended : ∀ now, s.phase = .exited (.allCertificatesExpired now) → now ≤ latest →
      r.keysSize ≤ 2 * expiredCount latest r.loaded := by
    intro now hphase
    rw [hrunning] at hphase
    cases hphase
  cases houtcome with
  | transported ht =>
    have hkeys := ht.keys
    exact
      { size_le := by
          change r.toKeyStore.keysSize ≤ r.toKeyStore.keys.length
          rw [hkeys]
          exact h.size_le
        pos := fun _ => by
          change 0 < r.toKeyStore.keysSize
          rw [hkeys]
          exact h.pos hrunning
        wears := fun hall => by
          change Wears latest store r.toKeyStore
          rw [hkeys]
          exact h.wears (htimes obs hall).1
        ended := hended }
  | decided hdecision hauth hobs hsilent =>
    have hsafe := Safe.of_ok (authenticate_safe verify h.size_le) hauth
    have hwears := fun hnow : a.time ≤ latest =>
      authenticate_wears verify (h.pos hrunning) h.size_le hnow hauth
    exact
      { size_le := hsafe.1
        pos := fun _ =>
          (authenticate_wears verify (h.pos hrunning) h.size_le (le_refl a.time) hauth).2
        wears := fun hall => by
          obtain ⟨hbefore, hbehind⟩ := htimes obs hall
          have hnow : a.time ≤ latest := by
            refine hbehind a.time ?_
            rw [hobs, timesRead_append, timesRead_append, timesRead_decisionLog]
            simp
          exact (h.wears hbefore).trans (hwears hnow).1
        ended := hended }

theorem Worn.step {s t : Server} {l : Label} (h : Worn latest store s)
    (hstep : s.step verify l = some t) : Worn latest store t := by
  rcases Server.step_cases verify hstep with ⟨-, rfl⟩ | ⟨events, -, -, -, rfl⟩ |
    ⟨a, e, events, -, hrunning, -, rfl⟩
  · exact h.of_eq rfl rfl (fun hphase => by cases hphase) fun now hphase => by cases hphase
  · exact h.of_eq rfl rfl id fun _ _ => rfl
  · have hyields := handleEvent_yields verify a e s.resources
    cases hevent : handleEvent verify e a s.resources with
    | ok p => exact h.advance hrunning (hyields.of_ok hevent).2.2
    | error stop =>
      cases stop with
      | fault fault =>
        exact h.of_eq rfl rfl (fun hphase => by cases hphase) fun now hphase => by cases hphase
      | code reason =>
        rcases hyields.of_code hevent with rfl | ⟨mid, obs, conn, -, hend⟩
        · exact h.of_eq rfl rfl (fun hphase => by cases hphase) fun now hphase => by cases hphase
        · obtain ⟨rfl, hhalf⟩ := authenticate_ended verify (h.pos hrunning) h.size_le hend
          exact
            { size_le := h.size_le
              pos := fun hphase => by cases hphase
              wears := h.wears
              ended := fun now hphase hnow => by
                cases hphase
                have hmono := expiredCount_mono hnow s.resources.loaded
                exact hhalf.trans (Nat.mul_le_mul_left 2 hmono) }

/-- Over every run no more keys are gone than twice the number of those that have expired,
and the server ends for want of keys only if half of them have. -/
theorem keys_outlast (verify : PubKey → Bytes → Bytes → Bool) (store : KeyStore)
    (labels : List Label) (s : Server) (latest : ℤ) (hs : store.keysSize ≤ store.keys.length)
    (hrun : Run (fun s l t => s.step verify l = some t) (Server.start store) labels s)
    (hlatest : ∀ t ∈ timesRead s.log, t ≤ latest) : Outlasts latest store s := by
  have hworn : Worn latest store s :=
    hrun.invariant (fun s l t h hstep => h.step hstep) (Worn.start hs)
  have hwears := hworn.wears hlatest
  unfold Wears at hwears
  refine ⟨by omega, hworn.pos, fun now hphase hnow => ?_⟩
  have hhalf := hworn.ended now hphase hnow
  change s.resources.keysSize ≤ _ at hhalf
  omega

/-- Of two keys one has expired, and a connection that has sent nothing ends the server. -/
theorem keys_outlast_two :
    ∃ s, s.phase = .exited (.allCertificatesExpired 1) ∧
      Outlasts 1 (keysUntil [0, 2]) s := by
  have hrun : ∃ s, Run (fun s l t => s.step (fun _ _ _ => true) l = some t)
      (Server.start (keysUntil [0, 2])) (emptySession 1) s ∧
        s.phase = .exited (.allCertificatesExpired 1) ∧ s.log = [.opened 0] := by
    exact ⟨_, .cons rfl (.cons rfl (.cons rfl (.cons rfl (.nil _)))), rfl, rfl⟩
  obtain ⟨s, hrun, hphase, hlog⟩ := hrun
  refine ⟨s, hphase, keys_outlast _ _ _ s 1 (by decide) hrun ?_⟩
  rw [hlog]
  intro t ht
  cases ht

end Runs

end X509Server
