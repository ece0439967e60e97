import X509Server.Interface.Output

/-!
# What gen_sig writes

A run of a write loop is described by the results it uses (`Loops`), a run of the program by
those of its two loops with the newline's between them (`Finishes`); with one more result in
front of it or behind it, neither changes.  In a loop without errors the output grows by what
is left of the data at most, and by all of it exactly if no call returns 0.
-/

set_option autoImplicit false

namespace X509Server

/-! ## The loops -/

/-- From `start` on and behind `out`, the loop uses these results and leaves `out'`. -/
inductive Loops (data : Bytes) : ℕ → Bytes → List WriteResult → Bytes → Prop where
  | done {start : ℕ} {out : Bytes} (h : data.length ≤ start) : Loops data start out [] out
  | failed {start : ℕ} {out out' : Bytes} {used : List WriteResult} (h : start < data.length)
      (rest : Loops data ((start + (2 ^ 64 - 1)) % 2 ^ 64) out used out') :
      Loops data start out (.failed :: used) out'
  | nothing {start : ℕ} {out : Bytes} (h : start < data.length) :
      Loops data start out [.wrote 0] out
  | took {start n : ℕ} {out out' : Bytes} {used : List WriteResult} (h : start < data.length)
      (pos : 0 < n)
      (rest : Loops data ((start + ((data.drop start).take n).length) % 2 ^ 64)
        (out ++ (data.drop start).take n) used out') :
      Loops data start out (.wrote n :: used) out'

section Loops

variable {data out out' : Bytes} {used rest : List WriteResult} {start : ℕ}

theorem length_chunk (data : Bytes) (start n : ℕ) :
    ((data.drop start).take n).length = min n (data.length - start) := by
  rw [List.length_take, List.length_drop]

theorem Loops.writeLoop_eq (h : Loops data start out used out') (rest : List WriteResult) :
    writeLoop data (used ++ rest) start out = some (out', rest) := by
  induction h with
  | done h =>
    cases rest with
    | nil => simp [writeLoop, Nat.not_lt.mpr h]
    | cons w rest => cases w <;> simp [writeLoop, Nat.not_lt.mpr h]
  | failed h _ ih =>
    rw [List.cons_append, writeLoop, if_pos h]
    exact ih
  | nothing h => simp [writeLoop, h]
  | @took start n _ _ _ h pos _ ih =>
    have hlen := length_chunk data start n
    rw [List.cons_append, writeLoop, if_pos h]
    dsimp only
    rw [if_pos (by omega)]
    exact ih

theorem loops_of_writeLoop {writes : List WriteResult}
    (h : writeLoop data writes start out = some (out', rest)) :
    ∃ used, writes = used ++ rest ∧ Loops data start out used out' := by
  induction writes generalizing start out with
  | nil =>
    unfold writeLoop at h
    split at h
    · cases h
    · obtain ⟨rfl, rfl⟩ := Prod.mk.inj (Option.some.inj h)
      exact ⟨[], rfl, .done (by omega)⟩
  | cons w writes ih =>
    by_cases hmore : start < data.length
    · cases w with
      | failed =>
        rw [writeLoop, if_pos hmore] at h
        obtain ⟨used, rfl, hloops⟩ := ih h
        exact ⟨.failed :: used, rfl, .failed hmore hloops⟩
      | wrote n =>
        have hlen := length_chunk data start n
        rw [writeLoop, if_pos hmore] at h
        dsimp only at h
        split at h
        · obtain ⟨used, rfl, hloops⟩ := ih h
          exact ⟨.wrote n :: used, rfl, .took hmore (by omega) hloops⟩
        · obtain ⟨rfl, rfl⟩ := Prod.mk.inj (Option.some.inj h)
          obtain rfl : n = 0 := by omega
          exact ⟨[.wrote 0], rfl, .nothing hmore⟩
    · have hdone : writeLoop data (w :: writes) start out = some (out, w :: writes) := by
        cases w <;> simp [writeLoop, hmore]
      obtain ⟨rfl, rfl⟩ := Prod.mk.inj (Option.some.inj (hdone.symm.trans h))
      exact ⟨[], rfl, .done (by omega)⟩

/-- What the loop uses is determined by the results. -/
theorem Loops.unique {out'' : Bytes} {used' rest' : List WriteResult}
    (h : Loops data start out used out') (h' : Loops data start out used' out'')
    (heq : used ++ rest = used' ++ rest') : out' = out'' ∧ rest = rest' := by
  have hleft := h.writeLoop_eq rest
  rw [heq, h'.writeLoop_eq rest'] at hleft
  obtain ⟨hout, hrest⟩ := Prod.mk.inj (Option.some.inj hleft)
  exact ⟨hout.symm, hrest.symm⟩

/-- With positive counts the loop writes the rest of the data, in whatever pieces.  Its index
does not wrap, or it would not end. -/
theorem Loops.output_eq (h : Loops data start out used out') (hstart : start ≤ data.length)
    (hlt : start < 2 ^ 64) (hused : ∀ w ∈ used, w.Takes) :
    data.length < 2 ^ 64 ∧ out' = out ++ data.drop start := by
  induction h with
  | done h =>
    rw [List.drop_eq_nil_of_le h, List.append_nil]
    exact ⟨by omega, rfl⟩
  | failed h _ _ =>
    obtain ⟨n, -, hn⟩ := hused .failed (by simp)
    cases hn
  | nothing h =>
    obtain ⟨n, hpos, hn⟩ := hused (.wrote 0) (by simp)
    cases hn
    exact absurd hpos (by decide)
  | @took start n out _ used h pos _ ih =>
    have hlen := length_chunk data start n
    have hpieces : (data.drop start).take n ++
        (data.drop start).drop ((data.drop start).take n).length = data.drop start := by
      rw [List.length_take, List.take_eq_take_min, List.take_append_drop]
    have hnext : (start + ((data.drop start).take n).length) % 2 ^ 64 ≤ data.length :=
      (Nat.mod_le _ _).trans (by omega)
    obtain ⟨hsize, hout⟩ := ih hnext (Nat.mod_lt _ (by norm_num))
      fun w hw => hused w (List.mem_cons_of_mem _ hw)
    refine ⟨hsize, ?_⟩
    rw [hout, Nat.mod_eq_of_lt (by omega), List.append_assoc, ← List.drop_drop, hpieces]

/-- Without errors the loop writes no more than the rest of the data, and all of it only if no
call returns 0. -/
theorem Loops.length_le (h : Loops data start out used out') (hsize : data.length < 2 ^ 64)
    (hstart : start ≤ data.length) (hused : .failed ∉ used) :
    out'.length ≤ out.length + (data.length - start) ∧
      (out'.length = out.length + (data.length - start) → ∀ w ∈ used, w.Takes) := by
  induction h with
  | done h =>
    refine ⟨by omega, ?_⟩
    intro _ w hw
    cases hw
  | failed h _ _ => exact absurd (by simp) hused
  | nothing h =>
    refine ⟨by omega, ?_⟩
    intro hall
    omega
  | @took start n out _ used h pos _ ih =>
    have hlen := length_chunk data start n
    rw [Nat.mod_eq_of_lt (by omega)] at ih
    obtain ⟨hle, hall⟩ := ih (by omega) fun hw => hused (List.mem_cons_of_mem _ hw)
    rw [List.length_append] at hle hall
    refine ⟨by omega, ?_⟩
    intro hout w hw
    rcases List.mem_cons.mp hw with rfl | hw
    · exact ⟨n, pos, rfl⟩
    · exact hall (by omega) w hw

/-- Without errors the loop ends. -/
theorem exists_loops (results : Stream' WriteResult) (hresults : ∀ i, results.get i ≠ .failed)
    (hsize : data.length < 2 ^ 64) (hstart : start ≤ data.length) (out : Bytes) :
    ∃ n out', Loops data start out (results.take n) out' := by
  induction hleft : data.length - start using Nat.strong_induction_on
    generalizing results start out with
  | _ left ih =>
    by_cases hmore : start < data.length
    · have htake : ∀ n, results.take (n + 1) = results.get 0 :: results.tail.take n :=
        fun n => Stream'.take_succ n results
      cases hfirst : results.get 0 with
      | failed => exact absurd hfirst (hresults 0)
      | wrote n =>
        by_cases hn : n = 0
        · subst hn
          refine ⟨1, out, ?_⟩
          rw [htake, hfirst]
          exact .nothing hmore
        · have hlen := length_chunk data start n
          obtain ⟨m, out', hloops⟩ := ih (data.length -
              (start + ((data.drop start).take n).length)) (by omega) results.tail
            (fun i => hresults (i + 1)) (by omega) (out ++ (data.drop start).take n) rfl
          refine ⟨m + 1, out', ?_⟩
          rw [htake, hfirst]
          refine .took hmore (by omega) ?_
          rwa [Nat.mod_eq_of_lt (by omega)]
    · exact ⟨0, out, .done (by omega)⟩

end Loops

/-! ## The program -/

/-- The program uses these results and exits, with success or without, behind `out`. -/
inductive Finishes (sig script : Bytes) : List WriteResult → Bool → Bytes → Prop where
  | refused {before : List WriteResult} {w : WriteResult} {out : Bytes}
      (first : Loops sig 0 [] before out) (none_taken : ¬ w.Takes) :
      Finishes sig script (before ++ [w]) false out
  | written {before after : List WriteResult} {n : ℕ} {out out' : Bytes}
      (first : Loops sig 0 [] before out) (pos : 0 < n)
      (second : Loops script 0 (out ++ [10]) after out') :
      Finishes sig script (before ++ .wrote n :: after) true out'

section Finishes

variable {sig script out out' : Bytes} {used used' rest rest' : List WriteResult} {ok ok' : Bool}

theorem Finishes.genSigOutput_eq (h : Finishes sig script used ok out)
    (rest : List WriteResult) : genSigOutput sig script (used ++ rest) = some (ok, out) := by
  cases h with
  | @refused before w out first none_taken =>
    have hfirst := first.writeLoop_eq (w :: rest)
    rw [List.append_assoc, List.singleton_append]
    unfold genSigOutput
    rw [hfirst]
    cases w with
    | failed => rfl
    | wrote n =>
      cases n with
      | zero => rfl
      | succ n => exact absurd ⟨n + 1, Nat.succ_pos n, rfl⟩ none_taken
  | @written before after n _ out' first pos second =>
    obtain ⟨n, rfl⟩ := Nat.exists_eq_add_of_le' pos
    have hfirst := first.writeLoop_eq (.wrote (n + 1) :: after ++ rest)
    rw [List.append_assoc]
    unfold genSigOutput
    rw [hfirst]
    simp [second.writeLoop_eq rest]

theorem finishes_of_genSigOutput {writes : List WriteResult}
    (h : genSigOutput sig script writes = some (ok, out)) :
    ∃ used rest, writes = used ++ rest ∧ Finishes sig script used ok out := by
  unfold genSigOutput at h
  simp only [Option.bind_eq_bind, Option.bind_eq_some_iff] at h
  obtain ⟨⟨out₁, rest⟩, hsig, h⟩ := h
  obtain ⟨before, rfl, hfirst⟩ := loops_of_writeLoop hsig
  cases rest with
  | nil => cases h
  | cons w rest =>
    cases w with
    | failed =>
      obtain ⟨rfl, rfl⟩ := Prod.mk.inj (Option.some.inj h)
      refine ⟨before ++ [.failed], rest, by simp, .refused hfirst ?_⟩
      rintro ⟨n, -, hn⟩
      cases hn
    | wrote n =>
      cases n with
      | zero =>
        obtain ⟨rfl, rfl⟩ := Prod.mk.inj (Option.some.inj h)
        refine ⟨before ++ [.wrote 0], rest, by simp, .refused hfirst ?_⟩
        rintro ⟨n, hpos, hn⟩
        cases hn
        exact absurd hpos (by decide)
      | succ n =>
        simp only [Option.bind_eq_some_iff] at h
        obtain ⟨⟨out₂, left⟩, hscript, hmessage⟩ := h
        obtain ⟨rfl, rfl⟩ := Prod.mk.inj (Option.some.inj hmessage)
        obtain ⟨after, rfl, hsecond⟩ := loops_of_writeLoop hscript
        exact ⟨before ++ .wrote (n + 1) :: after, left, by simp,
          .written hfirst (Nat.succ_pos n) hsecond⟩

/-- What a run uses is determined by the results. -/
theorem Finishes.unique (h : Finishes sig script used ok out)
    (h' : Finishes sig script used' ok' out') (heq : used ++ rest = used' ++ rest') :
    rest = rest' ∧ ok = ok' ∧ out = out' := by
  cases h with
  | refused first none_taken =>
    rw [List.append_assoc, List.singleton_append] at heq
    cases h' with
    | refused first' _ =>
      rw [List.append_assoc, List.singleton_append] at heq
      obtain ⟨rfl, hrest⟩ := first.unique first' heq
      exact ⟨(List.cons.inj hrest).2, rfl, rfl⟩
    | written first' pos' _ =>
      rw [List.append_assoc] at heq
      obtain ⟨-, hrest⟩ := first.unique first' heq
      obtain ⟨rfl, -⟩ := List.cons.inj hrest
      exact absurd ⟨_, pos', rfl⟩ none_taken
  | written first pos second =>
    rw [List.append_assoc] at heq
    cases h' with
    | refused first' none_taken' =>
      rw [List.append_assoc, List.singleton_append] at heq
      obtain ⟨-, hrest⟩ := first.unique first' heq
      obtain ⟨rfl, -⟩ := List.cons.inj hrest
      exact absurd ⟨_, pos, rfl⟩ none_taken'
    | written first' _ second' =>
      rw [List.append_assoc] at heq
      obtain ⟨rfl, hrest⟩ := first.unique first' heq
      obtain ⟨rfl, hrest'⟩ := second.unique second' (List.cons.inj hrest).2
      exact ⟨hrest', rfl, rfl⟩

/-- With positive counts only, an exit with success has written the message. -/
theorem Finishes.output_eq (h : Finishes sig script used true out)
    (hused : ∀ w ∈ used, w.Takes) : out = sig ++ 10 :: script := by
  cases h with
  | written first pos second =>
    obtain ⟨-, rfl⟩ := first.output_eq (Nat.zero_le _) (by norm_num)
      fun w hw => hused w (by simp [hw])
    obtain ⟨-, rfl⟩ := second.output_eq (Nat.zero_le _) (by norm_num)
      fun w hw => hused w (by simp [hw])
    simp

/-- Without errors, the whole message has been written with positive counts only. -/
theorem Finishes.takes (h : Finishes sig script used true out) (hsig : sig.length < 2 ^ 64)
    (hscript : script.length < 2 ^ 64) (hused : .failed ∉ used)
    (hout : out = sig ++ 10 :: script) : ∀ w ∈ used, w.Takes := by
  cases h with
  | @written before after n out₁ _ first pos second =>
    have hlen := congrArg List.length hout
    obtain ⟨hle₁, hall₁⟩ := first.length_le hsig (Nat.zero_le _) fun hw => hused (by simp [hw])
    obtain ⟨hle₂, hall₂⟩ := second.length_le hscript (Nat.zero_le _) fun hw => hused (by simp [hw])
    simp only [List.length_append, List.length_cons, List.length_nil] at hlen hle₁ hle₂ hall₁ hall₂
    intro w hw
    rcases List.mem_append.mp hw with hw | hw
    · exact hall₁ (by omega) w hw
    · rcases List.mem_cons.mp hw with rfl | hw
      · exact ⟨n, pos, rfl⟩
      · exact hall₂ (by omega) w hw

end Finishes

/-! ## Sequences of results -/

section Results

variable {sig script out : Bytes} {results : Stream' WriteResult} {ok : Bool}

/-- An exit uses the results up to some call, and makes the calls in front of it. -/
theorem exists_finishes {n : ℕ} (h : genSigOutput sig script (results.take n) = some (ok, out)) :
    ∃ m, Finishes sig script (results.take m) ok out ∧ ∀ i, Calls sig script results i ↔ i < m := by
  obtain ⟨used, rest, htake, hfinishes⟩ := finishes_of_genSigOutput h
  have hused : results.take used.length = used := by
    have hlen := congrArg List.length htake
    rw [Stream'.length_take, List.length_append] at hlen
    have hfront := congrArg (List.take used.length) htake
    rwa [Stream'.take_take, Nat.min_eq_right (by omega), List.take_left] at hfront
  refine ⟨used.length, by rwa [hused], ?_⟩
  intro i
  unfold Calls
  constructor
  · intro hnone
    by_contra hle
    obtain ⟨k, rfl⟩ := Nat.exists_eq_add_of_le (Nat.not_lt.mp hle)
    rw [Stream'.take_add, hused, hfinishes.genSigOutput_eq] at hnone
    cases hnone
  · intro hlt
    cases hresult : genSigOutput sig script (results.take i) with
    | none => rfl
    | some r =>
      -- then this run would end in front of what the other one uses
      obtain ⟨used', rest', htake', hfinishes'⟩ := finishes_of_genSigOutput hresult
      obtain ⟨k, hk⟩ := Nat.exists_eq_add_of_lt hlt
      have hsplit : used' ++ (rest' ++ (results.drop i).take (k + 1)) = used ++ [] := by
        rw [← List.append_assoc, ← htake', ← Stream'.take_add, List.append_nil, ← hused, hk]
        rfl
      have hnil := (hfinishes'.unique hfinishes hsplit).1
      have hlen := congrArg List.length hnil
      rw [List.length_append, Stream'.length_take, List.length_nil] at hlen
      omega

/-- Two exits are one. -/
theorem exit_unique {n n' : ℕ} {ok' : Bool} {out' : Bytes}
    (h : genSigOutput sig script (results.take n) = some (ok, out))
    (h' : genSigOutput sig script (results.take n') = some (ok', out')) :
    ok = ok' ∧ out = out' := by
  obtain ⟨m, hfinishes, hcalls⟩ := exists_finishes h
  obtain ⟨m', hfinishes', hcalls'⟩ := exists_finishes h'
  have hsame : m = m' := by
    have hle := (hcalls m).symm.trans (hcalls' m)
    have hge := (hcalls m').symm.trans (hcalls' m')
    omega
  subst hsame
  exact (hfinishes.unique hfinishes' (Eq.refl (results.take m ++ []))).2

theorem mem_take_iff {m : ℕ} {w : WriteResult} :
    w ∈ results.take m ↔ ∃ i < m, results.get i = w := by
  rw [List.mem_iff_getElem?]
  constructor
  · rintro ⟨i, hi⟩
    have hlt : i < m := by
      have hlen := (List.getElem?_eq_some_iff.mp hi).1
      rwa [Stream'.length_take] at hlen
    rw [Stream'.getElem?_take hlt] at hi
    exact ⟨i, hlt, Option.some.inj hi⟩
  · rintro ⟨i, hlt, rfl⟩
    exact ⟨i, Stream'.getElem?_take hlt⟩

/-- A refused newline is the call that ends the run. -/
theorem newlineCall_of_refused {m : ℕ} (h : Finishes sig script (results.take m) false out) :
    ∃ i, NewlineCall sig results i ∧ ¬ (results.get i).Takes := by
  generalize hused : results.take m = used at h
  cases h with
  | @refused before w _ first none_taken =>
    have hlen := congrArg List.length hused
    rw [Stream'.length_take, List.length_append, List.length_singleton] at hlen
    rw [hlen, Stream'.take_succ'] at hused
    obtain ⟨hbefore, hw⟩ := List.append_inj' hused rfl
    obtain rfl := List.singleton_inj.mp hw
    refine ⟨before.length, ⟨out, ?_⟩, none_taken⟩
    rw [hbefore]
    have hloop := first.writeLoop_eq []
    rwa [List.append_nil] at hloop

/-- A newline that is not taken ends the run without success. -/
theorem exit_of_newlineCall {k : ℕ} (h : NewlineCall sig results k)
    (hnot : ¬ (results.get k).Takes) :
    ∃ out, genSigOutput sig script (results.take (k + 1)) = some (false, out) := by
  obtain ⟨out, hloop⟩ := h
  obtain ⟨used, hused, hfirst⟩ := loops_of_writeLoop hloop
  rw [List.append_nil] at hused
  refine ⟨out, ?_⟩
  rw [Stream'.take_succ', hused, ← List.append_nil (_ ++ _)]
  exact (Finishes.refused hfirst hnot).genSigOutput_eq []

/-- Without errors there is an exit. -/
theorem exists_exit (hsig : sig.length < 2 ^ 64) (hscript : script.length < 2 ^ 64)
    (hresults : ∀ i, results.get i ≠ .failed) :
    ∃ n ok out, genSigOutput sig script (results.take n) = some (ok, out) := by
  obtain ⟨k, out₁, hfirst⟩ := exists_loops results hresults hsig (Nat.zero_le _) []
  by_cases htakes : (results.get k).Takes
  · obtain ⟨n, pos, hn⟩ := htakes
    obtain ⟨m, out₂, hsecond⟩ := exists_loops (results.drop (k + 1))
      (fun i => hresults (i + (k + 1))) hscript (Nat.zero_le _) (out₁ ++ [10])
    have hfinishes := Finishes.written hfirst pos hsecond
    refine ⟨k + 1 + m, true, out₂, ?_⟩
    have htake : results.take (k + 1 + m) =
        results.take k ++ .wrote n :: (results.drop (k + 1)).take m ++ [] := by
      rw [Stream'.take_add, Stream'.take_succ', hn]
      simp
    rw [htake]
    exact hfinishes.genSigOutput_eq []
  · refine ⟨k + 1, false, out₁, ?_⟩
    rw [Stream'.take_succ', ← List.append_nil (_ ++ _)]
    exact (Finishes.refused hfirst htakes).genSigOutput_eq []

/-- The output of gen_sig is intact exactly if every call that is made takes a byte, or the one
that writes the newline does not. -/
theorem genSig_intact_iff (sig script : Bytes) (hsig : sig.length < 2 ^ 64)
    (hscript : script.length < 2 ^ 64) (results : Stream' WriteResult) :
    OutputIntact sig script results ↔
      (∀ i, Calls sig script results i → (results.get i).Takes) ∨
        ∃ i, NewlineCall sig results i ∧ ¬ (results.get i).Takes := by
  constructor
  · intro h
    by_cases hexit : ∃ n ok out, genSigOutput sig script (results.take n) = some (ok, out)
    · obtain ⟨n, ok, out, hout⟩ := hexit
      obtain ⟨m, hfinishes, hcalls⟩ := exists_finishes hout
      cases ok with
      | false => exact Or.inr (newlineCall_of_refused hfinishes)
      | true =>
        left
        have hused : .failed ∉ results.take m := by
          intro hmem
          obtain ⟨i, hlt, hfailed⟩ := mem_take_iff.mp hmem
          obtain ⟨n', out', hout'⟩ := h.failure i ((hcalls i).mpr hlt) hfailed
          exact absurd (exit_unique hout hout').1 (by decide)
        intro i hi
        exact hfinishes.takes hsig hscript hused (h.success n out hout) _
          (mem_take_iff.mpr ⟨i, (hcalls i).mp hi, rfl⟩)
    · -- every call is made, so none fails, and the run ends
      have hresults : ∀ i, results.get i ≠ .failed := by
        intro i hfailed
        have hcall : Calls sig script results i := by
          cases hresult : genSigOutput sig script (results.take i) with
          | none => exact hresult
          | some r => exact absurd ⟨i, r.1, r.2, hresult⟩ hexit
        obtain ⟨n, out, hout⟩ := h.failure i hcall hfailed
        exact hexit ⟨n, false, out, hout⟩
      exact absurd (exists_exit hsig hscript hresults) hexit
  · rintro (hall | ⟨k, hnewline, hnot⟩)
    · constructor
      · intro n out hout
        obtain ⟨m, hfinishes, hcalls⟩ := exists_finishes hout
        apply hfinishes.output_eq
        intro w hw
        obtain ⟨i, hlt, rfl⟩ := mem_take_iff.mp hw
        exact hall i ((hcalls i).mpr hlt)
      · intro i hcall hfailed
        obtain ⟨n, -, hn⟩ := hall i hcall
        rw [hfailed] at hn
        cases hn
    · obtain ⟨out, hout⟩ := @exit_of_newlineCall sig script results k hnewline hnot
      constructor
      · intro n out' hout'
        exact absurd (exit_unique hout hout').1 (by decide)
      · intro i _ _
        exact ⟨k + 1, out, hout⟩

end Results

/-- Standard output takes a byte with every call. -/
theorem genSig_intact_iff_bytewise :
    OutputIntact [1, 2] [3] (Stream'.const (.wrote 1)) ↔
      (∀ i, Calls [1, 2] [3] (Stream'.const (.wrote 1)) i →
        ((Stream'.const (WriteResult.wrote 1)).get i).Takes) ∨
        ∃ i, NewlineCall [1, 2] (Stream'.const (.wrote 1)) i ∧
          ¬ ((Stream'.const (WriteResult.wrote 1)).get i).Takes :=
  genSig_intact_iff [1, 2] [3] (by norm_num) (by norm_num) (Stream'.const (.wrote 1))

/-- The first call fails: the index wraps, and a message without signature is a success. -/
theorem failedFirst_not_intact :
    genSigOutput [1, 2] [3] ((Stream'.cons .failed (Stream'.const (.wrote 1))).take 3) =
        some (true, [10, 3]) ∧
      ¬ OutputIntact [1, 2] [3] (Stream'.cons .failed (Stream'.const (.wrote 1))) := by
  have hrun : genSigOutput [1, 2] [3]
      ((Stream'.cons .failed (Stream'.const (.wrote 1))).take 3) = some (true, [10, 3]) := by
    decide
  refine ⟨hrun, ?_⟩
  intro h
  exact absurd (h.success 3 _ hrun) (by decide)

/-- A call that fails behind the first byte writes this byte a second time. -/
example : genSigOutput [1, 2] [3] [.wrote 1, .failed, .wrote 2, .wrote 1, .wrote 1] =
    some (true, [1, 1, 2, 10, 3]) := by
  decide

end X509Server
