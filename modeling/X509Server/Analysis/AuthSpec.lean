import X509Server.Analysis.KeySpec
import X509Server.Interface.Expiry

/-!
# The loop over the keys

The loop removes an expired key by exchanging it with the last one in use, and does not move
on.  Its bound is the number of keys it started with, so it does not stop where the keys in
use end.  Two lemmas describe it.

* `authLoop_safe`: whatever it does, the slots below the bound hold a permutation of the
  keys, and a script it returns is authentic for one of them.
* `authLoop_scan`: up to the end of the keys in use it is a search: it has tried unexpired
  keys and removed expired ones.  At that end it returns exactly if nothing was removed.

Past that end it meets the removed keys again, and removes a key in use for each of them
(`authLoop_overrun`).
-/

set_option autoImplicit false

namespace X509Server

open Checked

section Loop

variable (verify : PubKey → Bytes → Bytes → Bool) {now : ℤ} {buf : Bytes} {bound : ℕ}
  {keys : List PubKey}

/-! ## The framing -/

/-- Every byte the framing looks at is in the buffer. -/
theorem PubKey.readSplit_eq (key : PubKey) (buf : Bytes) :
    key.readSplit buf = .ok (key.split buf) := by
  unfold PubKey.readSplit PubKey.split
  by_cases hlen : key.expSigSize + 1 ≤ buf.length
  · have hlt : key.expSigSize < buf.length := by omega
    have hget : buf[key.expSigSize]? = some buf[key.expSigSize] := List.getElem?_eq_getElem hlt
    rw [if_pos hlen, rawByte_eq hget, ok_bind]
    by_cases hbyte : buf[key.expSigSize] = 10
    · rw [if_pos hbyte, rawRange_eq (by omega), ok_bind, rawRange_eq (by omega), ok_bind,
        if_pos ⟨hlen, by rw [hget, hbyte]⟩]
      have hend : key.expSigSize + 1 + (buf.length - (key.expSigSize + 1)) = buf.length := by omega
      rw [hend, ByteWindow.window, ByteWindow.window, List.drop_zero]
      simp
    · rw [if_neg hbyte, if_neg]
      rintro ⟨-, h⟩
      rw [hget] at h
      exact hbyte (Option.some.inj h)
  · rw [if_neg hlen, if_neg fun h => hlen h.1]

/-- What a key reads of a message. -/
theorem PubKey.readScript_eq (key : PubKey) (buf : Bytes) :
    key.readScript verify buf = .ok (key.authenticate verify buf) := by
  unfold PubKey.readScript PubKey.authenticate
  rw [key.readSplit_eq, ok_bind]
  cases key.split buf <;> rfl

/-! ## What always holds -/

/-- The slots below the bound hold the keys, in some order. -/
structure KeyStore.Holds (s : KeyStore) (bound : ℕ) (keys : List PubKey) : Prop where
  size_le : s.keysSize ≤ bound
  length_le : bound ≤ s.keys.length
  perm : (s.keys.take bound).Perm keys

/-- The keys in use and the removed ones. -/
theorem KeyStore.Holds.split {s : KeyStore} (h : s.Holds bound keys) :
    (s.loaded ++ (s.keys.take bound).drop s.keysSize).Perm keys := by
  have hsplit := List.take_append_drop s.keysSize (s.keys.take bound)
  rw [List.take_take, Nat.min_eq_left h.size_le] at hsplit
  rw [KeyStore.loaded, hsplit]
  exact h.perm

theorem KeyStore.holds_loaded {s : KeyStore} (h : s.keysSize ≤ s.keys.length) :
    s.Holds s.keysSize s.loaded :=
  ⟨le_refl _, h, List.Perm.refl _⟩

theorem KeyStore.Holds.mem {s : KeyStore} (h : s.Holds bound keys) {i : ℕ} (hi : i < bound)
    {key : PubKey} (hkey : s.keys[i]? = some key) : key ∈ keys := by
  refine h.perm.mem_iff.mp (List.mem_of_getElem? (i := i) ?_)
  rw [List.getElem?_take_of_lt hi]
  exact hkey

/-- The keys in use are among the keys. -/
theorem KeyStore.Holds.mem_of_loaded {s : KeyStore} (h : s.Holds bound keys) {key : PubKey}
    (hkey : key ∈ s.loaded) : key ∈ keys := by
  refine h.perm.mem_iff.mp ?_
  have hsub : s.loaded <+: s.keys.take bound := List.take_prefix_take_left h.size_le
  exact hsub.subset hkey

/-- The loop neither faults nor makes up a key; its result holds the keys, and a script comes
from an unexpired key of them that accepts the message. -/
theorem authLoop_safe {fuel i : ℕ} {s : KeyStore} (h : s.Holds bound keys)
    (hfuel : bound - i + s.keysSize < fuel) :
    Safe (authLoop verify now buf bound fuel i s) fun r =>
      r.1.Holds bound keys ∧ r.1.keys.length = s.keys.length ∧ r.1.keysSize ≤ s.keysSize ∧
        ∀ script, r.2 = some script → ∃ key ∈ keys, now ≤ key.expiry ∧
          key.authenticate verify buf = some script := by
  induction fuel generalizing i s with
  | zero => omega
  | succ fuel ih =>
    have hlen := h.length_le
    have hsize := h.size_le
    unfold authLoop
    refine Safe.ite (fun hi => ?_) fun _ => ⟨h, rfl, le_refl _, fun script hnone => nomatch hnone⟩
    have hi' : i < s.keys.length := by omega
    rw [slotAt_eq hi', ok_bind]
    refine Safe.ite (fun hexpired => ?_) fun hvalid => ?_
    · refine Safe.ite (fun hmany => ?_) fun _ => safe_code _ _
      obtain ⟨s', hremove, hsize', hlen', hperm, -⟩ :=
        s.swapRemove_spec Exit hi (by omega) hsize hlen
      rw [hremove, ok_bind]
      have h' : s'.Holds bound keys := ⟨by omega, by omega, hperm.trans h.perm⟩
      refine (ih h' (by omega)).mono ?_
      rintro ⟨t, script⟩ ⟨ht, htlen, htsize, hscript⟩
      exact ⟨ht, htlen.trans hlen', by dsimp only at htsize ⊢; omega, hscript⟩
    · rw [PubKey.readScript_eq, ok_bind]
      cases hauth : s.keys[i].authenticate verify buf with
      | some script =>
        refine ⟨h, rfl, le_refl _, ?_⟩
        intro script' hscript'
        obtain rfl := Option.some.inj hscript'
        exact ⟨_, h.mem hi (List.getElem?_eq_getElem hi'), by omega, hauth⟩
      | none => exact ih h (by omega)

/-- The keys behind the loop were among the keys in front of it, and an executed script is
authentic for one of these. -/
theorem authenticate_safe {s : KeyStore} (hs : s.keysSize ≤ s.keys.length) :
    Safe (authenticate verify now buf s) fun r =>
      r.1.keysSize ≤ r.1.keys.length ∧ (∀ key ∈ r.1.loaded, key ∈ s.loaded) ∧
        ∀ script, r.2 = some script → ∃ key ∈ s.loaded, now ≤ key.expiry ∧
          key.authenticate verify buf = some script := by
  refine (authLoop_safe verify (s.holds_loaded hs) (by omega)).mono ?_
  rintro r ⟨hholds, -, -, hscript⟩
  exact ⟨hholds.size_le.trans hholds.length_le, fun key => hholds.mem_of_loaded, hscript⟩

/-- The loop ends the server for one reason only. -/
theorem authLoop_yields {fuel i : ℕ} {s : KeyStore} :
    Yields (authLoop verify now buf bound fuel i s) (fun _ => True)
      fun reason => reason = .allCertificatesExpired now := by
  induction fuel generalizing i s with
  | zero => trivial
  | succ fuel ih =>
    unfold authLoop
    refine Yields.ite (fun _ => ?_) fun _ => trivial
    refine (slotAt_yields s.keys i).bind fun key _ => ?_
    refine Yields.ite (fun _ => Yields.ite (fun _ => ?_) fun _ => rfl) fun _ => ?_
    · exact (swapRemove_yields s i).bind fun s' _ => ih
    · rw [PubKey.readScript_eq, ok_bind]
      cases key.authenticate verify buf with
      | some script => trivial
      | none => exact ih

/-! ## Up to the end of the keys in use -/

/-- The search: the keys in front of the index are unexpired and do not accept the message,
and those that have been removed are expired. -/
structure KeyStore.Scanned (s : KeyStore) (now : ℤ) (buf : Bytes) (bound i : ℕ)
    (keys : List PubKey) : Prop where
  holds : s.Holds bound keys
  pos : 0 < bound → 0 < s.keysSize
  idx_le : i ≤ s.keysSize
  tried : ∀ j < i, ∀ key, s.keys[j]? = some key →
    now ≤ key.expiry ∧ key.authenticate verify buf = none
  removed : ∀ j < bound, s.keysSize ≤ j → ∀ key, s.keys[j]? = some key → key.expiry < now

theorem KeyStore.scanned_start (s : KeyStore) (h : s.keysSize ≤ s.keys.length) (now : ℤ)
    (buf : Bytes) : s.Scanned verify now buf s.keysSize 0 s.loaded where
  holds := s.holds_loaded h
  pos := id
  idx_le := Nat.zero_le _
  tried := by simp
  removed j hj hle := by omega

/-- Removing an expired key is part of the search. -/
theorem KeyStore.Scanned.remove {s s' : KeyStore} {i : ℕ}
    (h : s.Scanned verify now buf bound i keys) (hi : i < s.keysSize) (hmany : s.keysSize > 1)
    {key : PubKey} (hkey : s.keys[i]? = some key) (hexpired : key.expiry < now)
    (hsize' : s'.keysSize = s.keysSize - 1) (hholds : s'.Holds bound keys)
    (hget : ∀ j, s'.keys[j]? = if j = s.keysSize - 1 then s.keys[i]?
      else if j = i then s.keys[s.keysSize - 1]? else s.keys[j]?) :
    s'.Scanned verify now buf bound i keys where
  holds := hholds
  pos _ := by omega
  idx_le := by omega
  tried j hj key' hkey' := by
    rw [hget, if_neg (by omega), if_neg (by omega)] at hkey'
    exact h.tried j hj key' hkey'
  removed j hj hle key' hkey' := by
    rw [hget] at hkey'
    by_cases hlast : j = s.keysSize - 1
    · rw [if_pos hlast, hkey] at hkey'
      obtain rfl := Option.some.inj hkey'
      exact hexpired
    · rw [if_neg hlast, if_neg (by omega)] at hkey'
      exact h.removed j hj (by omega) key' hkey'

/-- The loop up to the end of the keys in use: it finds a key that accepts the message, or
has none but expired ones, or arrives there. -/
theorem authLoop_scan {fuel i : ℕ} {s : KeyStore} (h : s.Scanned verify now buf bound i keys)
    (hfuel : bound - i + s.keysSize < fuel) :
    (∃ s' script j, authLoop verify now buf bound fuel i s = .ok (s', some script) ∧
        s'.Scanned verify now buf bound j keys ∧ Authentic verify now buf keys) ∨
      (authLoop verify now buf bound fuel i s = .error (.code (.allCertificatesExpired now)) ∧
        ∀ key ∈ keys, key.expiry < now) ∨
      ∃ s' fuel', authLoop verify now buf bound fuel i s =
          authLoop verify now buf bound fuel' s'.keysSize s' ∧
        s'.Scanned verify now buf bound s'.keysSize keys ∧ bound < fuel' := by
  induction fuel generalizing i s with
  | zero => omega
  | succ fuel ih =>
    have hlen := h.holds.length_le
    have hsize := h.holds.size_le
    rcases Nat.lt_or_ge i s.keysSize with hi | hend
    · have hi' : i < s.keys.length := by omega
      have hkey : s.keys[i]? = some s.keys[i] := List.getElem?_eq_getElem hi'
      rw [authLoop, if_pos (by omega), slotAt_eq hi', ok_bind]
      by_cases hexpired : now > s.keys[i].expiry
      · rw [if_pos hexpired]
        by_cases hmany : s.keysSize > 1
        · obtain ⟨s', hremove, hsize', hlen', hperm, hget⟩ :=
            s.swapRemove_spec Exit (show i < bound by omega) (by omega) hsize hlen
          rw [if_pos hmany, hremove, ok_bind]
          have hholds : s'.Holds bound keys := ⟨by omega, by omega, hperm.trans h.holds.perm⟩
          exact ih (h.remove verify hi hmany hkey hexpired hsize' hholds hget) (by omega)
        · -- the last key in use, and all the others have been removed
          rw [if_neg hmany]
          refine Or.inr (Or.inl ⟨rfl, fun key hmem => ?_⟩)
          obtain ⟨j, hj⟩ := List.mem_iff_getElem?.mp (h.holds.perm.mem_iff.mpr hmem)
          have hjb : j < bound := by
            by_contra hge
            rw [List.getElem?_take_eq_none (by omega)] at hj
            cases hj
          rw [List.getElem?_take_of_lt hjb] at hj
          by_cases hzero : j = i
          · subst hzero
            obtain rfl := Option.some.inj (hkey.symm.trans hj)
            exact hexpired
          · exact h.removed j hjb (by omega) key hj
      · rw [if_neg hexpired, PubKey.readScript_eq, ok_bind]
        cases hauth : s.keys[i].authenticate verify buf with
        | some script =>
          refine Or.inl ⟨s, script, i, rfl, h, _, h.holds.mem (by omega) hkey, by omega, ?_⟩
          rw [hauth]
          rfl
        | none =>
          refine ih ⟨h.holds, h.pos, hi, fun j hj key hjkey => ?_, h.removed⟩ (by omega)
          by_cases hji : j = i
          · subst hji
            obtain rfl := Option.some.inj (hkey.symm.trans hjkey)
            exact ⟨by omega, hauth⟩
          · exact h.tried j (by omega) key hjkey
    · have hidx := h.idx_le
      obtain rfl : i = s.keysSize := by omega
      exact Or.inr (Or.inr ⟨s, fuel + 1, rfl, h, by omega⟩)

/-- During the search no unexpired key is lost. -/
theorem KeyStore.Scanned.count_loaded {s : KeyStore} {i : ℕ}
    (h : s.Scanned verify now buf bound i keys) {key : PubKey} (hvalid : now ≤ key.expiry) :
    s.loaded.count key = keys.count key := by
  have hsplit : s.keys.take bound = s.loaded ++ (s.keys.take bound).drop s.keysSize := by
    have happend := (List.take_append_drop s.keysSize (s.keys.take bound)).symm
    rwa [List.take_take, Nat.min_eq_left h.holds.size_le] at happend
  have hzero : ((s.keys.take bound).drop s.keysSize).count key = 0 := by
    refine List.count_eq_zero.mpr fun hmem => ?_
    obtain ⟨j, hj⟩ := List.mem_iff_getElem?.mp hmem
    rw [List.getElem?_drop] at hj
    have hjb : s.keysSize + j < bound := by
      by_contra hge
      rw [List.getElem?_take_eq_none (by omega)] at hj
      cases hj
    rw [List.getElem?_take_of_lt hjb] at hj
    have := h.removed _ hjb (Nat.le_add_right _ _) key hj
    omega
  have hcount := h.holds.perm.count_eq key
  rw [hsplit, List.count_append, hzero] at hcount
  exact hcount

/-- At the end of the search no unexpired key has accepted the message. -/
theorem KeyStore.Scanned.not_authentic {s : KeyStore}
    (h : s.Scanned verify now buf bound s.keysSize keys) : ¬ Authentic verify now buf keys := by
  rintro ⟨key, hmem, hvalid, haccepts⟩
  have hcount : 0 < s.loaded.count key := by
    rw [h.count_loaded verify hvalid]
    exact List.count_pos_iff.mpr hmem
  obtain ⟨j, hj⟩ := List.mem_iff_getElem?.mp (List.count_pos_iff.mp hcount)
  have hjsize : j < s.keysSize := by
    by_contra hge
    rw [KeyStore.loaded, List.getElem?_take_eq_none (by omega)] at hj
    cases hj
  rw [KeyStore.loaded, List.getElem?_take_of_lt hjsize] at hj
  rw [(h.tried j hjsize key hj).2] at haccepts
  cases haccepts

/-! ## Past the end -/

theorem KeyStore.Holds.loaded_length {s : KeyStore} (h : s.Holds bound keys) :
    s.loaded.length = s.keysSize := by
  have := h.size_le
  have := h.length_le
  rw [KeyStore.loaded, List.length_take]
  omega

/-- Past the end of the keys in use the next slot holds a removed key.  It is expired, so
one more slot goes out of use, or the server ends. -/
theorem authLoop_overrun {fuel : ℕ} {s : KeyStore}
    (h : s.Scanned verify now buf bound s.keysSize keys) (hlt : s.keysSize < bound)
    (hfuel : bound < fuel) :
    authLoop verify now buf bound fuel s.keysSize s =
        .error (.code (.allCertificatesExpired now)) ∨
      Safe (authLoop verify now buf bound fuel s.keysSize s) fun r =>
        r.1.Holds bound keys ∧ r.1.keysSize < s.keysSize := by
  have hlen := h.holds.length_le
  have hpos := h.pos (by omega)
  have hslot : s.keysSize < s.keys.length := by omega
  have hexpired : now > s.keys[s.keysSize].expiry :=
    h.removed s.keysSize hlt (le_refl _) _ (List.getElem?_eq_getElem hslot)
  obtain ⟨fuel', rfl⟩ : ∃ fuel', fuel = fuel' + 1 := ⟨fuel - 1, by omega⟩
  rw [authLoop, if_pos hlt, slotAt_eq hslot, ok_bind, if_pos hexpired]
  by_cases hmany : s.keysSize > 1
  · obtain ⟨s', hremove, hsize', hlen', hperm, -⟩ :=
      s.swapRemove_spec Exit hlt hpos h.holds.size_le hlen
    rw [if_pos hmany, hremove, ok_bind]
    have hholds : s'.Holds bound keys :=
      ⟨by omega, by omega, hperm.trans h.holds.perm⟩
    refine Or.inr ((authLoop_safe verify hholds (by omega)).mono ?_)
    rintro r ⟨hr, -, hsize, -⟩
    exact ⟨hr, by omega⟩
  · rw [if_neg hmany]
    exact Or.inl rfl

/-- Past the end an unexpired key is lost, or the server ends in spite of one. -/
theorem KeyStore.Scanned.not_kept {fuel : ℕ} {s start : KeyStore}
    (h : s.Scanned verify now buf bound s.keysSize start.loaded) (hlt : s.keysSize < bound)
    (hfuel : bound < fuel) :
    ¬ KeysKept now start (authLoop verify now buf bound fuel s.keysSize s) := by
  have hpos := h.pos (by omega)
  have hlen := h.holds.length_le
  have hfirst : 0 < s.keys.length := by omega
  have hvalid : now ≤ s.keys[0].expiry :=
    (h.tried 0 hpos _ (List.getElem?_eq_getElem hfirst)).1
  rcases authLoop_overrun verify h hlt hfuel with hexit | hsafe
  · rw [hexit]
    intro hall
    have hmem := h.holds.mem (i := 0) (by omega) (List.getElem?_eq_getElem hfirst)
    have := hall _ hmem
    omega
  · intro hkept
    cases hr : authLoop verify now buf bound fuel s.keysSize s with
    | ok r =>
      obtain ⟨t, script⟩ := r
      rw [hr] at hkept hsafe
      obtain ⟨hholds, hsize⟩ := hsafe
      -- every key in use is unexpired, so it would have to be among the fewer keys of `t`
      have hsub : s.loaded.Subperm t.loaded := by
        refine List.subperm_ext_iff.mpr fun key hmem => ?_
        obtain ⟨j, hj⟩ := List.mem_iff_getElem?.mp hmem
        have hlt := (List.getElem?_eq_some_iff.mp hj).1
        rw [h.holds.loaded_length] at hlt
        rw [KeyStore.loaded, List.getElem?_take_of_lt hlt] at hj
        have hvalid := (h.tried j hlt key hj).1
        rw [h.count_loaded verify hvalid, hkept key hvalid]
      have hlength := hsub.length_le
      rw [h.holds.loaded_length, hholds.loaded_length] at hlength
      omega
    | error stop =>
      cases stop with
      | fault fault =>
        rw [hr] at hkept
        exact hkept
      | code reason =>
        rw [hr] at hkept
        have hmem := h.holds.mem (i := 0) (by omega) (List.getElem?_eq_getElem hfirst)
        have := hkept _ hmem
        omega

/-! ## The whole loop -/

/-- The loop keeps the keys exactly where it settles. -/
theorem authenticate_keysKept_iff {s : KeyStore} (hs : s.keysSize ≤ s.keys.length) :
    KeysKept now s (authenticate verify now buf s) ↔ Settles verify now buf s.loaded := by
  have hscan := authLoop_scan verify (s.scanned_start verify hs now buf)
    (show s.keysSize - 0 + s.keysSize < s.keysSize + s.keysSize + 1 by omega)
  unfold authenticate
  rcases hscan with ⟨t, script, j, hr, ht, hauth⟩ | ⟨hr, hall⟩ | ⟨t, fuel, hr, ht, hfuel⟩
  · rw [hr]
    exact ⟨fun _ => Or.inr (Or.inr hauth), fun _ key hvalid => ht.count_loaded verify hvalid⟩
  · rw [hr]
    exact ⟨fun _ => Or.inr (Or.inl hall), fun _ => hall⟩
  · rw [hr]
    have hsize := ht.holds.size_le
    have hlen := ht.holds.length_le
    rcases Nat.lt_or_ge t.keysSize s.keysSize with hlt | hge
    · -- an expired key has been removed, and no unexpired one accepts the message
      have hremoved : t.keysSize < t.keys.length := by omega
      have hfirst : 0 < t.keys.length := by omega
      have hvalid := (ht.tried 0 (ht.pos (by omega)) _ (List.getElem?_eq_getElem hfirst)).1
      have hexpired := ht.removed _ hlt (le_refl _) _ (List.getElem?_eq_getElem hremoved)
      have hvalidMem := ht.holds.mem (i := 0) (by omega) (List.getElem?_eq_getElem hfirst)
      have hexpiredMem := ht.holds.mem hlt (List.getElem?_eq_getElem hremoved)
      refine ⟨fun hkept => absurd hkept (ht.not_kept verify hlt hfuel), ?_⟩
      rintro (hnone | hall | hauth)
      · have := hnone _ hexpiredMem
        omega
      · have := hall _ hvalidMem
        omega
      · exact absurd hauth (ht.not_authentic verify)
    · have heq : t.keysSize = s.keysSize := by omega
      obtain ⟨fuel', rfl⟩ : ∃ fuel', fuel = fuel' + 1 := ⟨fuel - 1, by omega⟩
      rw [authLoop, if_neg (by omega)]
      refine ⟨fun _ => Or.inl fun key hmem => ?_, fun _ key hvalid =>
        ht.count_loaded verify hvalid⟩
      obtain ⟨j, hj, rfl⟩ := List.getElem_of_mem (ht.holds.perm.mem_iff.mpr hmem)
      rw [List.length_take] at hj
      refine (ht.tried j (by omega) _ ?_).1
      rw [List.getElem_take, List.getElem?_eq_getElem]

end Loop

/-- A key array with these times of expiry. -/
def keysUntil (expiries : List ℤ) : KeyStore where
  keys := expiries.map fun expiry => { PubKey.unwritten with expiry }
  keysSize := expiries.length

end X509Server
