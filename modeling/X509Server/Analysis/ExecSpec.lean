import X509Server.Interface.Wedge

/-!
# Scripts that are not read to their end

`exec_script` keeps its own descriptor of the pipe's read end while it writes, so a full pipe
makes it wait even when nobody else can read.  The bytes that were written are those of the
script (`Exec.Sending`), and once the script is given up no buffer of the pipe gets free any
more: the parent fills the free ones with what is left of the script (`Exec.Fits.move`).  So the
server is wedged exactly if they do not hold it.
-/

set_option autoImplicit false

namespace X509Server

open Pipes Runs

namespace Exec

variable {page slots : ℕ} {script : Bytes} {e e' : Exec page slots}

/-! ## Steps -/

/-- What a step can do. -/
inductive Move (script : Bytes) : Exec page slots → Exec page slots → Prop where
  | created {e : Exec page slots} (hpoint : e.parent = .pipe) :
      Move script e { e with parent := .fork, parentReads := true }
  | forked {e : Exec page slots} (hpoint : e.parent = .fork) :
      Move script e { e with parent := .writing 0, child := .dup2, childReads := 1 }
  | wrote {e : Exec page slots} (i : ℕ) (pipe : Pipe UInt8 page slots)
      (hpoint : e.parent = .writing i)
      (hput : e.pipe.put? ((script.drop i).take page) = some pipe) :
      Move script e { e with parent := .writing (i + ((script.drop i).take page).length), pipe }
  | left {e : Exec page slots} (point : ParentPoint) (reads : Bool) (hpipe : point ≠ .pipe)
      (hfork : point ≠ .fork) (hwriting : ∀ i, point ≠ .writing i) :
      Move script e { e with parent := point, parentReads := reads }
  | used {e : Exec page slots} (child : ChildPoint) (pipe : Pipe UInt8 page slots)
      (childReads othersRead : ℕ)
      (hactive : (e.child ≠ .unborn ∧ e.child ≠ .exited) ∨ 0 < e.othersRead)
      (hread : pipe = e.pipe ∨ ∃ n, pipe = e.pipe.take n) :
      Move script e { e with child, pipe, childReads, othersRead }

theorem parentStep_move {l : ExecLabel} (h : e.parentStep script l = some e') :
    Move script e e' := by
  unfold parentStep at h
  cases l with
  | pipe ok =>
    dsimp only at h
    split at h
    · rename_i hpoint
      split at h
      · obtain rfl := Option.some.inj h
        exact .created hpoint
      · obtain rfl := Option.some.inj h
        exact .left .returned _ (by decide) (by decide) (by simp)
    · cases h
  | fork ok =>
    dsimp only at h
    split at h
    · rename_i hpoint
      split at h
      · obtain rfl := Option.some.inj h
        exact .forked hpoint
      · obtain rfl := Option.some.inj h
        exact .left .returned _ (by decide) (by decide) (by simp)
    · cases h
  | writes =>
    dsimp only at h
    split at h
    · rename_i i hpoint
      obtain ⟨pipe, hput, rfl⟩ := Option.map_eq_some_iff.mp h
      exact .wrote i pipe hpoint hput
    · cases h
  | writeFails =>
    dsimp only at h
    split at h
    · split at h
      · obtain rfl := Option.some.inj h
        exact .left .closeRead _ (by decide) (by decide) (by simp)
      · cases h
    · cases h
  | leavesLoop =>
    dsimp only at h
    split at h
    · split at h
      · obtain rfl := Option.some.inj h
        exact .left .closeRead _ (by decide) (by decide) (by simp)
      · cases h
    · cases h
  | parentCloses =>
    dsimp only at h
    split at h
    · obtain rfl := Option.some.inj h
      exact .left .closeWrite _ (by decide) (by decide) (by simp)
    · obtain rfl := Option.some.inj h
      exact .left .waitpid _ (by decide) (by decide) (by simp)
    · cases h
  | waitpid =>
    dsimp only at h
    split at h
    · obtain rfl := Option.some.inj h
      exact .left .returned _ (by decide) (by decide) (by simp)
    · cases h
  | _ => cases h

theorem childStep_move {l : ExecLabel} (h : e.childStep l = some e') : Move script e e' := by
  have halive (point : ChildPoint) (hpoint : e.child = point) (hunborn : point ≠ .unborn)
      (hexited : point ≠ .exited) :
      (e.child ≠ .unborn ∧ e.child ≠ .exited) ∨ 0 < e.othersRead := by
    rw [hpoint]
    exact Or.inl ⟨hunborn, hexited⟩
  unfold childStep at h
  cases l with
  | dup2 ok =>
    dsimp only at h
    split at h
    · rename_i hpoint
      obtain rfl := Option.some.inj h
      exact .used _ _ _ _ (halive .dup2 hpoint (by decide) (by decide)) (Or.inl rfl)
    · cases h
  | childCloses =>
    dsimp only at h
    split at h
    · rename_i ret hpoint
      obtain rfl := Option.some.inj h
      exact .used _ _ _ _ (halive (.closeRead ret) hpoint (by simp) (by simp)) (Or.inl rfl)
    · rename_i ret hpoint
      obtain rfl := Option.some.inj h
      exact .used _ _ _ _ (halive (.closeWrite ret) hpoint (by simp) (by simp)) (Or.inl rfl)
    · cases h
  | execlp =>
    dsimp only at h
    split at h
    · rename_i hpoint
      obtain rfl := Option.some.inj h
      exact .used _ _ _ _ (halive (.execlp true) hpoint (by decide) (by decide)) (Or.inl rfl)
    · cases h
  | childReads n =>
    dsimp only at h
    split at h
    · rename_i hbash
      obtain rfl := Option.some.inj h
      exact .used _ _ _ _ (halive .bash hbash.1 (by decide) (by decide)) (Or.inr ⟨n, rfl⟩)
    · cases h
  | childForks =>
    dsimp only at h
    split at h
    · rename_i hbash
      obtain rfl := Option.some.inj h
      exact .used _ _ _ _ (halive .bash hbash.1 (by decide) (by decide)) (Or.inl rfl)
    · cases h
  | childDrops =>
    dsimp only at h
    split at h
    · rename_i hbash
      obtain rfl := Option.some.inj h
      exact .used _ _ _ _ (halive .bash hbash.1 (by decide) (by decide)) (Or.inl rfl)
    · cases h
  | childExits =>
    dsimp only at h
    split at h
    · rename_i hlive
      obtain rfl := Option.some.inj h
      exact .used _ _ _ _ (Or.inl hlive) (Or.inl rfl)
    · cases h
  | _ => cases h

theorem otherStep_move {l : ExecLabel} (h : e.otherStep l = some e') : Move script e e' := by
  unfold otherStep at h
  split at h
  · rename_i hothers
    cases l with
    | otherReads n =>
      obtain rfl := Option.some.inj h
      exact .used _ _ _ _ (Or.inr hothers) (Or.inr ⟨n, rfl⟩)
    | otherForks =>
      obtain rfl := Option.some.inj h
      exact .used _ _ _ _ (Or.inr hothers) (Or.inl rfl)
    | otherDrops =>
      obtain rfl := Option.some.inj h
      exact .used _ _ _ _ (Or.inr hothers) (Or.inl rfl)
    | _ => cases h
  · cases h

theorem step_move {l : ExecLabel} (h : e.step script l = some e') : Move script e e' := by
  unfold step at h
  rcases Option.or_eq_some_iff.mp h with hparent | ⟨-, h⟩
  · exact parentStep_move hparent
  rcases Option.or_eq_some_iff.mp h with hchild | ⟨-, hother⟩
  · exact childStep_move hchild
  · exact otherStep_move hother

/-! ## What is written -/

/-- What a `write` that is pending puts into one buffer: a whole one, or the end of the
script. -/
theorem length_chunk (script : Bytes) (i page : ℕ) :
    ((script.drop i).take page).length = min page (script.length - i) := by
  rw [List.length_take, List.length_drop]

theorem take_length_chunk (script : Bytes) (i page : ℕ) :
    (script.drop i).take ((script.drop i).take page).length = (script.drop i).take page := by
  rw [List.length_take, ← List.take_eq_take_min]

/-- In front of `fork` there is no child; in the loop the bytes written so far are those of
the script, and the parent holds the read end. -/
structure Sending (script : Bytes) (e : Exec page slots) : Prop where
  fresh : e.parent = .pipe ∨ e.parent = .fork →
    e.child = .unborn ∧ e.othersRead = 0 ∧ e.pipe.written = []
  holding : e.parent = .fork → e.parentReads = true
  writing : ∀ i, e.parent = .writing i →
    i ≤ script.length ∧ e.pipe.written = script.take i ∧ e.parentReads = true

theorem sending_start : Sending script (start page slots) where
  fresh _ := ⟨rfl, rfl, rfl⟩
  holding h := by cases h
  writing i h := by cases h

theorem Sending.move (h : e.Sending script) (hmove : Move script e e') : e'.Sending script := by
  cases hmove with
  | created hpoint =>
    refine ⟨?_, fun _ => rfl, ?_⟩
    · intro _
      exact h.fresh (Or.inl hpoint)
    · intro i hi
      cases hi
  | forked hpoint =>
    refine ⟨?_, ?_, ?_⟩
    · rintro (hi | hi) <;> cases hi
    · intro hi
      cases hi
    · intro i hi
      obtain rfl : 0 = i := ParentPoint.writing.inj hi
      exact ⟨Nat.zero_le _, (h.fresh (Or.inr hpoint)).2.2, h.holding hpoint⟩
  | wrote i pipe hpoint hput =>
    obtain ⟨hle, hwritten, hreads⟩ := h.writing i hpoint
    refine ⟨?_, ?_, ?_⟩
    · rintro (hi | hi) <;> cases hi
    · intro hi
      cases hi
    · intro j hj
      obtain rfl := ParentPoint.writing.inj hj
      have hlength := length_chunk script i page
      refine ⟨by omega, ?_, hreads⟩
      change pipe.written = _
      rw [e.pipe.written_put? hput, hwritten, List.take_add, take_length_chunk]
  | left point reads hpipe hfork hwriting =>
    refine ⟨?_, ?_, ?_⟩
    · rintro (hi | hi)
      · exact absurd hi hpipe
      · exact absurd hi hfork
    · intro hi
      exact absurd hi hfork
    · intro i hi
      exact absurd hi (hwriting i)
  | used child pipe childReads othersRead hactive hread =>
    have hwritten : pipe.written = e.pipe.written := by
      rcases hread with rfl | ⟨n, rfl⟩
      · rfl
      · exact e.pipe.written_take n
    refine ⟨?_, h.holding, ?_⟩
    · intro hpoint
      -- nobody but the parent is there yet
      obtain ⟨hunborn, hnone, -⟩ := h.fresh hpoint
      rcases hactive with ⟨hchild, -⟩ | hothers
      · exact absurd hunborn hchild
      · omega
    · intro i hi
      change i ≤ script.length ∧ pipe.written = script.take i ∧ e.parentReads = true
      rw [hwritten]
      exact h.writing i hi

/-! ## A script that is given up -/

/-- A script that is given up stays so. -/
theorem Abandoned.move (h : e.Abandoned) (hsending : e.Sending script)
    (hmove : Move script e e') : e'.Abandoned := by
  cases hmove with
  | created hpoint => exact ⟨h.exited, h.child, h.others⟩
  | forked hpoint =>
    have hunborn := (hsending.fresh (Or.inr hpoint)).1
    rw [h.exited] at hunborn
    cases hunborn
  | wrote i pipe hpoint hput => exact ⟨h.exited, h.child, h.others⟩
  | left point reads hpipe hfork hwriting => exact ⟨h.exited, h.child, h.others⟩
  | used child pipe childReads othersRead hactive hread =>
    rcases hactive with ⟨-, hlive⟩ | hothers
    · exact absurd h.exited hlive
    · have := h.others
      omega

/-- What is left of the script goes on fitting: each buffer that is used up takes a whole one
or all there is, and reading takes no room away. -/
theorem Fits.move (h : e.Fits script) (hmove : Move script e e')
    (hgone : e'.Abandoned) : e'.Fits script := by
  cases hmove with
  | created hpoint =>
    intro i hi
    cases hi
  | forked hpoint => cases hgone.exited
  | wrote i pipe hpoint hput =>
    intro j hj
    obtain rfl := ParentPoint.writing.inj hj
    have hfits := h i hpoint
    have hroom := e.pipe.room_put? hput
    have hlength := length_chunk script i page
    change script.length ≤ i + ((script.drop i).take page).length + pipe.room
    omega
  | left point reads hpipe hfork hwriting =>
    intro i hi
    exact absurd hi (hwriting i)
  | used child pipe childReads othersRead hactive hread =>
    intro i hi
    have hfits := h i hi
    have hroom : e.pipe.room ≤ pipe.room := by
      rcases hread with rfl | ⟨n, rfl⟩
      · exact Nat.le_refl _
      · exact e.pipe.room_le_take n
    change script.length ≤ i + pipe.room
    omega

/-- A wedged server has bytes left for which there is no buffer. -/
theorem Wedged.not_fits (h : e.Wedged script) : ¬ e.Fits script := by
  obtain ⟨i, hpoint, hlt⟩ := h.blocked.writing
  intro hfits
  have hle := hfits i hpoint
  rw [e.pipe.room_of_full h.blocked.full] at hle
  omega

/-- With more of the script left than the free buffers hold, the parent fills them and waits. -/
theorem Abandoned.exists_wedged (hpage : 0 < page) (h : e.Abandoned)
    (hsending : e.Sending script) {i : ℕ} (hpoint : e.parent = .writing i)
    (hleft : i + e.pipe.room < script.length) :
    ∃ labels e', Run (fun e l e' => step script e l = some e') e labels e' ∧
      e'.Wedged script := by
  -- induction on the number of free buffers
  obtain ⟨free, hfree⟩ : ∃ free, slots - e.pipe.buffers.length = free := ⟨_, rfl⟩
  have hbounded := e.pipe.bounded
  induction free generalizing e i with
  | zero =>
    have hreads := (hsending.writing i hpoint).2.2
    have hopen : 0 < e.readEnds := by
      rw [readEnds, if_pos hreads]
      omega
    exact ⟨[], e, .nil e, ⟨⟨i, hpoint, by omega⟩, by rw [Pipe.Full]; omega, hopen⟩, h⟩
  | succ free ih =>
    have hpageRoom : page ≤ e.pipe.room := by
      rw [Pipe.room, hfree]
      exact Nat.le_mul_of_pos_left page (Nat.succ_pos free)
    have hlength : ((script.drop i).take page).length = page := by
      rw [length_chunk]
      omega
    have hchunk : (script.drop i).take page ≠ [] :=
      List.ne_nil_of_length_pos (by omega)
    obtain ⟨pipe, hput⟩ := e.pipe.put?_isSome _ hchunk (Nat.le_of_eq hlength) (by omega)
    have hroom := e.pipe.room_put? hput
    have hbuffers : pipe.buffers.length = e.pipe.buffers.length + 1 := by
      rw [(e.pipe.put?_eq_some hput).2.2, List.length_append, List.length_singleton]
    let e₁ : Exec page slots :=
      { e with parent := .writing (i + ((script.drop i).take page).length), pipe }
    have hstep : e.step script .writes = some e₁ := by
      simp only [step, parentStep, hpoint, hput, Option.map_some, Option.some_or, e₁]
    have hsending₁ : e₁.Sending script := hsending.move (.wrote i pipe hpoint hput)
    have hleft₁ : i + ((script.drop i).take page).length + pipe.room < script.length := by
      omega
    obtain ⟨labels, e', hrun, hwedged⟩ :=
      ih (e := e₁) ⟨h.exited, h.child, h.others⟩ hsending₁ rfl hleft₁
        (show slots - pipe.buffers.length = free by omega) pipe.bounded
    exact ⟨_, e', .cons hstep hrun, hwedged⟩

end Exec

open Exec

/-! ## Runs -/

variable (page slots : ℕ) (script : Bytes)

/-- A script whose rest fits into the free buffers of the pipe when it is given up does not
wedge the server.  From where a script has been given up while the parent is writing, the server
gets wedged exactly if they do not hold the rest. -/
theorem exec_wedged_iff (hpage : 0 < page) :
    (∀ labels e, Run (ReadingStep script) (start page slots) labels e → ¬ e.Wedged script) ∧
    ∀ labels e i, Run (fun e l e' => step script e l = some e') (start page slots) labels e →
      e.Abandoned → e.parent = .writing i →
        ((∃ labels' e', Run (fun e l e' => step script e l = some e') e labels' e' ∧
            e'.Wedged script) ↔
          i + e.pipe.room < script.length) := by
  constructor
  · intro labels e hrun hwedged
    have hkept : e.Sending script ∧ (e.Abandoned → e.Fits script) := by
      refine hrun.invariant (I := fun e => e.Sending script ∧ (e.Abandoned → e.Fits script))
        ?_ ⟨sending_start, ?_⟩
      · rintro e l e' ⟨hsending, hfits⟩ hstep
        have hmove := step_move hstep.step
        refine ⟨hsending.move hmove, ?_⟩
        intro hgone
        by_cases habandoned : e.Abandoned
        · exact (hfits habandoned).move hmove hgone
        · exact (hstep.fits habandoned hgone).move hmove hgone
      · intro habandoned
        cases habandoned.exited
    exact hwedged.not_fits (hkept.2 hwedged.abandoned)
  · intro labels e i hrun habandoned hpoint
    have hsending : e.Sending script :=
      hrun.invariant (fun e l e' h hstep => h.move (step_move hstep)) sending_start
    constructor
    · rintro ⟨labels', e', hrun', hwedged⟩
      by_contra hle
      have hfits : e.Fits script := by
        intro j hj
        rw [hpoint] at hj
        obtain rfl := ParentPoint.writing.inj hj
        omega
      have hkept := hrun'.invariant
        (I := fun e' => e'.Sending script ∧ e'.Abandoned ∧ e'.Fits script)
        (fun e₁ l e₂ h hstep => by
          have hmove := step_move hstep
          have hgone := h.2.1.move h.1 hmove
          exact ⟨h.1.move hmove, hgone, h.2.2.move hmove hgone⟩)
        ⟨hsending, habandoned, hfits⟩
      exact hwedged.not_fits hkept.2.2
    · intro hleft
      exact habandoned.exists_wedged hpage hsending hpoint hleft

/-- A script of two octets, which bash reads before it exits. -/
theorem exec_wedged_iff_read :
    ∃ e, Run (ReadingStep [0x3a, 0x0a]) (start 2 2)
      [.pipe true, .fork true, .dup2 true, .childCloses, .childCloses, .execlp, .writes,
        .childReads 2, .childExits] e ∧ e.Abandoned ∧ ¬ e.Wedged [0x3a, 0x0a] := by
  have hrun : ∃ e, Run (ReadingStep [0x3a, 0x0a]) (start 2 2)
      [.pipe true, .fork true, .dup2 true, .childCloses, .childCloses, .execlp, .writes,
        .childReads 2, .childExits] e ∧ e.Abandoned := by
    refine ⟨_, .cons ⟨rfl, ?_⟩ (.cons ⟨rfl, ?_⟩ (.cons ⟨rfl, ?_⟩ (.cons ⟨rfl, ?_⟩
      (.cons ⟨rfl, ?_⟩ (.cons ⟨rfl, ?_⟩ (.cons ⟨rfl, ?_⟩ (.cons ⟨rfl, ?_⟩ (.cons ⟨rfl, ?_⟩
        (.nil _))))))))), ⟨rfl, rfl, rfl⟩⟩
    all_goals rintro - - i ⟨⟩
    all_goals decide
  obtain ⟨e, hrun, habandoned⟩ := hrun
  exact ⟨e, hrun, habandoned, (exec_wedged_iff 2 2 [0x3a, 0x0a] (by decide)).1 _ e hrun⟩

/-- `exit` and a newline. -/
def exitScript : Bytes := [0x65, 0x78, 0x69, 0x74, 0x0a]

/-- bash reads the first line and exits. -/
def exitRun : List ExecLabel :=
  [.pipe true, .fork true, .dup2 true, .childCloses, .childCloses, .execlp, .writes,
    .childReads 5, .childExits]

variable {page slots script}

/-- Of a script that fills the first buffer, bash reads the first five octets: the buffer stays
in use. -/
theorem exists_abandoned (hpage : 5 < page) (hslots : 0 < slots) (hlong : page ≤ script.length) :
    ∃ e, Run (fun e l e' => step script e l = some e') (start page slots) exitRun e ∧
      e.Abandoned ∧ e.parent = .writing page ∧ e.pipe.room = (slots - 1) * page := by
  have hlength : (script.take page).length = page := List.length_take_of_le hlong
  obtain ⟨pipe, hput⟩ := (Pipe.empty UInt8 page slots).put?_isSome (script.take page)
    (List.ne_nil_of_length_pos (by omega)) (Nat.le_of_eq hlength) hslots
  obtain ⟨-, -, hbuffers⟩ := (Pipe.empty UInt8 page slots).put?_eq_some hput
  have hwrites : (Exec.mk (.writing 0) .bash (.empty UInt8 page slots) true 1 0).step script
      .writes = some ⟨.writing page, .bash, pipe, true, 1, 0⟩ := by
    simp only [step, parentStep, List.drop_zero, hput, Option.map_some, Option.some_or,
      hlength, Nat.zero_add]
  have hroom : (pipe.take 5).room = (slots - 1) * page := by
    have hused : (pipe.take 5).buffers = [(script.take page).drop 5] := by
      change consume 5 pipe.buffers = _
      rw [hbuffers]
      exact if_pos (by omega)
    rw [Pipe.room, hused, List.length_singleton]
  exact ⟨⟨.writing page, .exited, pipe.take 5, true, 0, 0⟩, .cons rfl (.cons rfl (.cons rfl
    (.cons rfl (.cons rfl (.cons rfl (.cons hwrites (.cons rfl (.cons rfl (.nil _))))))))),
    ⟨rfl, rfl, rfl⟩, rfl, hroom⟩

/-- With 16 buffers of 4096 bytes, `exit` in front of 65532 octets that bash does not read
wedges the server: that is one octet more than the buffers hold. -/
theorem exit_wedges : ∃ labels e,
    Run (fun e l e' => step (exitScript ++ List.replicate 65532 0x23) e l = some e')
      (start 4096 16) labels e ∧ e.Wedged (exitScript ++ List.replicate 65532 0x23) := by
  have hlength : (exitScript ++ List.replicate 65532 0x23).length = 65537 := by
    rw [List.length_append, List.length_replicate]
    rfl
  obtain ⟨e, hrun, habandoned, hpoint, hroom⟩ :=
    exists_abandoned (show 5 < 4096 by decide) (show 0 < 16 by decide)
      (show 4096 ≤ (exitScript ++ List.replicate 65532 0x23).length by omega)
  have hsending : e.Sending (exitScript ++ List.replicate 65532 0x23) :=
    hrun.invariant (fun e l e' h hstep => h.move (step_move hstep)) sending_start
  have hleft : 4096 + e.pipe.room < (exitScript ++ List.replicate 65532 0x23).length := by
    omega
  obtain ⟨labels, e', hrun', hwedged⟩ :=
    habandoned.exists_wedged (by decide) hsending hpoint hleft
  exact ⟨exitRun ++ labels, e', hrun.append hrun', hwedged⟩

end X509Server
