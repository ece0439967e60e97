import X509Server.Analysis.ExecSpec
import X509Server.Interface.Delivery

/-!
# Scripts are delivered

What a step of `exec_script` or of a process behind it can be is said once (`Shell.Moves`).
From it: the parent alone can write into the pipe once the child has become bash
(`Shell.Ends`), what has been read and what is waiting is what the parent has written
(`Shell.Sent`), and a shell that reads its input to the end lets `exec_script` return
(`Shell.patient_returns`), as every step brings the end nearer and none of the processes waits
for another one in vain.
-/

set_option autoImplicit false

namespace X509Server

open Pipes Runs

namespace Shell

variable {page slots : ℕ} {script : Bytes} {s t : Shell page slots}

/-! ## Steps -/

/-- What a step can be. -/
inductive Moves (script : Bytes) (s : Shell page slots) : ShellLabel → Shell page slots → Prop where
  | noPipe (point : s.parent = .pipe) :
      Moves script s (.exec (.pipe false)) { s with parent := .returned, parentWrites := false }
  | pipe (point : s.parent = .pipe) :
      Moves script s (.exec (.pipe true))
        { s with parent := .fork, parentReads := true, parentWrites := true }
  | noFork (point : s.parent = .fork) :
      Moves script s (.exec (.fork false))
        { s with parent := .returned, parentReads := false, parentWrites := false }
  | fork (point : s.parent = .fork) :
      Moves script s (.exec (.fork true))
        { s with parent := .writing 0, child := .dup2, childReads := 1, childWrites := 1 }
  | writes {i : ℕ} {pipe : Pipe UInt8 page slots} (point : s.parent = .writing i)
      (put : s.pipe.put? ((script.drop i).take page) = some pipe) :
      Moves script s (.exec .writes)
        { s with parent := .writing (i + ((script.drop i).take page).length), pipe }
  | writeFails {i : ℕ} (point : s.parent = .writing i) (more : i < script.length) :
      Moves script s (.exec .writeFails) { s with parent := .closeRead, failed := true }
  | leavesLoop {i : ℕ} (point : s.parent = .writing i) (all : script.length ≤ i) :
      Moves script s (.exec .leavesLoop) { s with parent := .closeRead }
  | closesRead (point : s.parent = .closeRead) :
      Moves script s (.exec .parentCloses) { s with parent := .closeWrite, parentReads := false }
  | closesWrite (point : s.parent = .closeWrite) :
      Moves script s (.exec .parentCloses) { s with parent := .waitpid, parentWrites := false }
  | waited (point : s.parent = .waitpid) (exited : s.child = .exited) :
      Moves script s (.exec .waitpid) { s with parent := .returned }
  | dup2 (ok : Bool) (point : s.child = .dup2) :
      Moves script s (.exec (.dup2 ok))
        { s with
          child := .closeRead ok
          childReads := if ok then s.childReads + 1 else s.childReads }
  | childClosesRead {ret : Bool} (point : s.child = .closeRead ret) :
      Moves script s (.exec .childCloses)
        { s with child := .closeWrite ret, childReads := s.childReads - 1 }
  | childClosesWrite {ret : Bool} (point : s.child = .closeWrite ret) :
      Moves script s (.exec .childCloses)
        { s with child := .execlp ret, childWrites := s.childWrites - 1 }
  | execlp (point : s.child = .execlp true) :
      Moves script s (.exec .execlp) { s with child := .bash }
  | childReads (n : ℕ) (point : s.child = .bash) (reads : 0 < s.childReads) :
      Moves script s (.exec (.childReads n)) { s with pipe := s.pipe.take n }
  | childForks (point : s.child = .bash) (reads : 0 < s.childReads) :
      Moves script s (.exec .childForks)
        { s with
          othersRead := s.othersRead + 1
          othersWrite := s.othersWrite || decide (0 < s.childWrites) }
  | childDrops (point : s.child = .bash) (reads : 0 < s.childReads) :
      Moves script s (.exec .childDrops) { s with childReads := s.childReads - 1 }
  | childExits (born : s.child ≠ .unborn) (lives : s.child ≠ .exited) :
      Moves script s (.exec .childExits)
        { s with child := .exited, childReads := 0, childWrites := 0 }
  | otherReads (n : ℕ) (others : 0 < s.othersRead) :
      Moves script s (.exec (.otherReads n)) { s with pipe := s.pipe.take n }
  | otherForks (others : 0 < s.othersRead) :
      Moves script s (.exec .otherForks) { s with othersRead := s.othersRead + 1 }
  | otherDrops (others : 0 < s.othersRead) :
      Moves script s (.exec .otherDrops) { s with othersRead := s.othersRead - 1 }
  | ends (point : s.child = .bash) (reads : 0 < s.childReads) (empty : s.pipe.waiting = [])
      (last : ¬ s.Writable) : Moves script s .childEnds { s with ended := true }

theorem parentStep_moves {l : ExecLabel} {e : Exec page slots}
    (h : s.toExec.parentStep script l = some e) :
    Moves script s (.exec l) { s.follow l with toExec := e } := by
  unfold Exec.parentStep at h
  cases l with
  | pipe ok =>
    dsimp only at h
    split at h
    · rename_i point
      cases ok
      · obtain rfl := Option.some.inj h
        exact .noPipe point
      · obtain rfl := Option.some.inj h
        exact .pipe point
    · cases h
  | fork ok =>
    dsimp only at h
    split at h
    · rename_i point
      cases ok
      · obtain rfl := Option.some.inj h
        exact .noFork point
      · obtain rfl := Option.some.inj h
        exact .fork point
    · cases h
  | writes =>
    dsimp only at h
    split at h
    · rename_i i point
      obtain ⟨pipe, hput, rfl⟩ := Option.map_eq_some_iff.mp h
      exact .writes point hput
    · cases h
  | writeFails =>
    dsimp only at h
    split at h
    · rename_i i point
      split at h
      · rename_i more
        obtain rfl := Option.some.inj h
        exact .writeFails point more
      · cases h
    · cases h
  | leavesLoop =>
    dsimp only at h
    split at h
    · rename_i i point
      split at h
      · rename_i all
        obtain rfl := Option.some.inj h
        exact .leavesLoop point all
      · cases h
    · cases h
  | parentCloses =>
    dsimp only at h
    split at h
    · rename_i point
      obtain rfl := Option.some.inj h
      have hsame : s.follow .parentCloses = s := if_neg (by rw [point]; decide)
      rw [hsame]
      exact .closesRead point
    · rename_i point
      obtain rfl := Option.some.inj h
      have hgiven : s.follow .parentCloses = { s with parentWrites := false } := if_pos point
      rw [hgiven]
      exact .closesWrite point
    · cases h
  | waitpid =>
    dsimp only at h
    split at h
    · rename_i point
      obtain rfl := Option.some.inj h
      exact .waited point.1 point.2
    · cases h
  | _ => cases h

theorem childStep_moves {l : ExecLabel} {e : Exec page slots} (h : s.toExec.childStep l = some e) :
    Moves script s (.exec l) { s.follow l with toExec := e } := by
  unfold Exec.childStep at h
  cases l with
  | dup2 ok =>
    dsimp only at h
    split at h
    · rename_i point
      obtain rfl := Option.some.inj h
      exact .dup2 ok point
    · cases h
  | childCloses =>
    dsimp only at h
    split at h
    · rename_i ret point
      obtain rfl := Option.some.inj h
      have hsame : s.follow .childCloses = s := by
        unfold follow
        rw [point]
      rw [hsame]
      exact .childClosesRead point
    · rename_i ret point
      obtain rfl := Option.some.inj h
      have hgiven : s.follow .childCloses = { s with childWrites := s.childWrites - 1 } := by
        unfold follow
        rw [point]
      rw [hgiven]
      exact .childClosesWrite point
    · cases h
  | execlp =>
    dsimp only at h
    split at h
    · rename_i point
      obtain rfl := Option.some.inj h
      exact .execlp point
    · cases h
  | childReads n =>
    dsimp only at h
    split at h
    · rename_i point
      obtain rfl := Option.some.inj h
      exact .childReads n point.1 point.2
    · cases h
  | childForks =>
    dsimp only at h
    split at h
    · rename_i point
      obtain rfl := Option.some.inj h
      exact .childForks point.1 point.2
    · cases h
  | childDrops =>
    dsimp only at h
    split at h
    · rename_i point
      obtain rfl := Option.some.inj h
      exact .childDrops point.1 point.2
    · cases h
  | childExits =>
    dsimp only at h
    split at h
    · rename_i point
      obtain rfl := Option.some.inj h
      exact .childExits point.1 point.2
    · cases h
  | _ => cases h

theorem otherStep_moves {l : ExecLabel} {e : Exec page slots} (h : s.toExec.otherStep l = some e) :
    Moves script s (.exec l) { s.follow l with toExec := e } := by
  unfold Exec.otherStep at h
  split at h
  · rename_i others
    cases l with
    | otherReads n =>
      obtain rfl := Option.some.inj h
      exact .otherReads n others
    | otherForks =>
      obtain rfl := Option.some.inj h
      exact .otherForks others
    | otherDrops =>
      obtain rfl := Option.some.inj h
      exact .otherDrops others
    | _ => cases h
  · cases h

theorem step_moves {l : ShellLabel} (h : s.step script l = some t) : Moves script s l t := by
  cases l with
  | childEnds =>
    simp only [step] at h
    split at h
    · rename_i hends
      obtain rfl := Option.some.inj h
      exact .ends hends.1 hends.2.1 hends.2.2.1 hends.2.2.2
    · cases h
  | exec l =>
    obtain ⟨e, he, rfl⟩ := Option.map_eq_some_iff.mp h
    unfold Exec.step at he
    rcases Option.or_eq_some_iff.mp he with hparent | ⟨-, he⟩
    · exact parentStep_moves hparent
    rcases Option.or_eq_some_iff.mp he with hchild | ⟨-, hother⟩
    · exact childStep_moves hchild
    · exact otherStep_moves hother

/-! ## The ends of the pipe -/

/-- The points at which the parent holds the read end. -/
def holdsRead : ParentPoint → Bool
  | .fork | .writing _ | .closeRead => true
  | _ => false

/-- The points at which the parent holds the write end. -/
def holdsWrite : ParentPoint → Bool
  | .fork | .writing _ | .closeRead | .closeWrite => true
  | _ => false

/-- The descriptors of the write end that the child has not yet closed. -/
def childHolds : ChildPoint → ℕ
  | .dup2 | .closeRead _ | .closeWrite _ => 1
  | _ => 0

/-- Who holds the ends of the pipe; no process that bash starts gets the write end. -/
structure Ends (s : Shell page slots) : Prop where
  parentReads : s.parentReads = holdsRead s.parent
  parentWrites : s.parentWrites = holdsWrite s.parent
  childWrites : s.childWrites = childHolds s.child
  othersWrite : s.othersWrite = false

theorem ends_start : Ends (start page slots) := ⟨rfl, rfl, rfl, rfl⟩

theorem Ends.at_parent (h : s.Ends) {point : ParentPoint} (hpoint : s.parent = point) :
    s.parentReads = holdsRead point ∧ s.parentWrites = holdsWrite point := by
  rw [h.parentReads, h.parentWrites, hpoint]
  exact ⟨rfl, rfl⟩

theorem Ends.at_child (h : s.Ends) {point : ChildPoint} (hpoint : s.child = point) :
    s.childWrites = childHolds point := by
  rw [h.childWrites, hpoint]

theorem Ends.moves {l : ShellLabel} (h : s.Ends) (hmoves : Moves script s l t) : t.Ends := by
  cases hmoves with
  | noPipe point => exact ⟨(h.at_parent point).1, rfl, h.childWrites, h.othersWrite⟩
  | pipe point => exact ⟨rfl, rfl, h.childWrites, h.othersWrite⟩
  | noFork point => exact ⟨rfl, rfl, h.childWrites, h.othersWrite⟩
  | fork point => exact ⟨(h.at_parent point).1, (h.at_parent point).2, rfl, h.othersWrite⟩
  | writes point put =>
    exact ⟨(h.at_parent point).1, (h.at_parent point).2, h.childWrites, h.othersWrite⟩
  | writeFails point more =>
    exact ⟨(h.at_parent point).1, (h.at_parent point).2, h.childWrites, h.othersWrite⟩
  | leavesLoop point all =>
    exact ⟨(h.at_parent point).1, (h.at_parent point).2, h.childWrites, h.othersWrite⟩
  | closesRead point => exact ⟨rfl, (h.at_parent point).2, h.childWrites, h.othersWrite⟩
  | closesWrite point => exact ⟨(h.at_parent point).1, rfl, h.childWrites, h.othersWrite⟩
  | waited point exited =>
    exact ⟨(h.at_parent point).1, (h.at_parent point).2, h.childWrites, h.othersWrite⟩
  | dup2 ok point =>
    have hheld := h.at_child point
    exact ⟨h.parentReads, h.parentWrites, hheld, h.othersWrite⟩
  | childClosesRead point =>
    have hheld := h.at_child point
    exact ⟨h.parentReads, h.parentWrites, hheld, h.othersWrite⟩
  | childClosesWrite point =>
    refine ⟨h.parentReads, h.parentWrites, ?_, h.othersWrite⟩
    change s.childWrites - 1 = 0
    rw [h.at_child point]
    rfl
  | execlp point =>
    have hheld := h.at_child point
    exact ⟨h.parentReads, h.parentWrites, hheld, h.othersWrite⟩
  | childForks point reads =>
    -- bash has no descriptor of the write end that a new process could inherit
    refine ⟨h.parentReads, h.parentWrites, h.childWrites, ?_⟩
    change (s.othersWrite || decide (0 < s.childWrites)) = false
    rw [h.othersWrite, h.at_child point]
    rfl
  | childExits born lives => exact ⟨h.parentReads, h.parentWrites, rfl, h.othersWrite⟩
  | childReads n point reads => exact ⟨h.parentReads, h.parentWrites, h.childWrites, h.othersWrite⟩
  | childDrops point reads => exact ⟨h.parentReads, h.parentWrites, h.childWrites, h.othersWrite⟩
  | otherReads n others => exact ⟨h.parentReads, h.parentWrites, h.childWrites, h.othersWrite⟩
  | otherForks others => exact ⟨h.parentReads, h.parentWrites, h.childWrites, h.othersWrite⟩
  | otherDrops others => exact ⟨h.parentReads, h.parentWrites, h.childWrites, h.othersWrite⟩
  | ends point reads empty last =>
    exact ⟨h.parentReads, h.parentWrites, h.childWrites, h.othersWrite⟩

/-- Beside bash only the parent can write. -/
theorem Ends.writable_iff (h : s.Ends) :
    s.Writable ↔ holdsWrite s.parent = true ∨ 0 < childHolds s.child := by
  unfold Writable
  rw [h.parentWrites, h.childWrites, h.othersWrite]
  simp

/-! ## What is written -/

/-- The parent has left the loop, or never come to it. -/
def behindLoop : ParentPoint → Bool
  | .closeRead | .closeWrite | .waitpid | .returned => true
  | _ => false

/-- What has been written is the script up to where the parent is, and the end is told only
when the parent has closed the pipe and everything has been read. -/
structure Sent (script : Bytes) (s : Shell page slots) : Prop where
  fresh : s.parent = .pipe ∨ s.parent = .fork → s.child = .unborn ∧ s.pipe.written = []
  writing : ∀ i, s.parent = .writing i → i ≤ script.length ∧ s.pipe.written = script.take i
  in_order : s.pipe.written <+: script
  all : behindLoop s.parent = true → s.failed = false → s.child ≠ .unborn →
    s.pipe.written = script
  ended : s.ended = true →
    holdsWrite s.parent = false ∧ s.pipe.waiting = [] ∧ s.child ≠ .unborn
  gone : s.parent = .returned → s.child = .unborn ∨ s.child = .exited

theorem sent_start : Sent script (start page slots) where
  fresh _ := ⟨rfl, rfl⟩
  writing i h := by cases h
  in_order := List.nil_prefix
  all h := by cases h
  ended h := by cases h
  gone h := by cases h

/-- A step of another process than the parent, as the parent sees it. -/
structure Aside (s t : Shell page slots) : Prop where
  parent : t.parent = s.parent
  failed : t.failed = s.failed
  written : t.pipe.written = s.pipe.written
  waiting : s.pipe.waiting = [] → t.pipe.waiting = []
  unborn : t.child = .unborn ↔ s.child = .unborn
  exited : s.child = .exited → t.child = .exited
  ended : t.ended = true →
    s.ended = true ∨ (s.pipe.waiting = [] ∧ ¬ s.Writable ∧ s.child ≠ .unborn)

theorem Sent.aside (h : s.Sent script) (hends : s.Ends) (haside : s.Aside t) : t.Sent script where
  fresh hpoint := by
    rw [haside.parent] at hpoint
    rw [haside.unborn, haside.written]
    exact h.fresh hpoint
  writing i hpoint := by
    rw [haside.parent] at hpoint
    rw [haside.written]
    exact h.writing i hpoint
  in_order := by
    rw [haside.written]
    exact h.in_order
  all hbehind hfailed hborn := by
    rw [haside.parent] at hbehind
    rw [haside.failed] at hfailed
    rw [haside.written]
    exact h.all hbehind hfailed (mt haside.unborn.mpr hborn)
  ended htold := by
    rw [haside.parent]
    rcases haside.ended htold with hbefore | ⟨hempty, hlast, hborn⟩
    · obtain ⟨hwrites, hempty, hborn⟩ := h.ended hbefore
      exact ⟨hwrites, haside.waiting hempty, mt haside.unborn.mp hborn⟩
    · rw [hends.writable_iff, not_or, Bool.not_eq_true] at hlast
      exact ⟨hlast.1, haside.waiting hempty, mt haside.unborn.mp hborn⟩
  gone hpoint := by
    rw [haside.parent] at hpoint
    rw [haside.unborn]
    exact (h.gone hpoint).imp id haside.exited

theorem waiting_take {pipe : Pipe UInt8 page slots} (h : pipe.waiting = []) (n : ℕ) :
    (pipe.take n).waiting = [] := by
  rw [Pipe.waiting_take, h, List.drop_nil]

theorem Sent.moves {l : ShellLabel} (h : s.Sent script) (hends : s.Ends)
    (hmoves : Moves script s l t) : t.Sent script := by
  have huntold (hwrites : holdsWrite s.parent = true) (htold : s.ended = true) : False := by
    have hnot := (h.ended htold).1
    rw [hwrites] at hnot
    cases hnot
  cases hmoves with
  | noPipe point =>
    have hunborn := (h.fresh (Or.inl point)).1
    refine ⟨?_, ?_, h.in_order, fun _ _ hborn => absurd hunborn hborn, fun htold => ?_,
      fun _ => Or.inl hunborn⟩
    · rintro (hpoint | hpoint) <;> cases hpoint
    · intro i hpoint
      cases hpoint
    · exact absurd hunborn (h.ended htold).2.2
  | pipe point =>
    refine ⟨fun _ => h.fresh (Or.inl point), ?_, h.in_order, (fun hbehind => by cases hbehind),
      fun htold => ?_, fun hpoint => by cases hpoint⟩
    · intro i hpoint
      cases hpoint
    · exact absurd (h.fresh (Or.inl point)).1 (h.ended htold).2.2
  | noFork point =>
    have hunborn := (h.fresh (Or.inr point)).1
    refine ⟨?_, ?_, h.in_order, fun _ _ hborn => absurd hunborn hborn, fun htold => ?_,
      fun _ => Or.inl hunborn⟩
    · rintro (hpoint | hpoint) <;> cases hpoint
    · intro i hpoint
      cases hpoint
    · exact absurd hunborn (h.ended htold).2.2
  | fork point =>
    refine ⟨?_, ?_, h.in_order, (fun hbehind => by cases hbehind), fun htold => ?_,
      fun hpoint => by cases hpoint⟩
    · rintro (hpoint | hpoint) <;> cases hpoint
    · intro i hpoint
      obtain rfl : 0 = i := ParentPoint.writing.inj hpoint
      exact ⟨Nat.zero_le _, (h.fresh (Or.inr point)).2⟩
    · exact (huntold (by rw [point]; rfl) htold).elim
  | @writes i pipe point put =>
    have hlength := Exec.length_chunk script i page
    have hwritten : pipe.written = script.take (i + ((script.drop i).take page).length) := by
      rw [s.pipe.written_put? put, (h.writing i point).2, List.take_add, Exec.take_length_chunk]
    refine ⟨?_, ?_, ?_, (fun hbehind => by cases hbehind), fun htold => ?_,
      fun hpoint => by cases hpoint⟩
    · rintro (hpoint | hpoint) <;> cases hpoint
    · intro j hpoint
      obtain rfl := ParentPoint.writing.inj hpoint
      have hle := (h.writing i point).1
      exact ⟨by omega, hwritten⟩
    · change pipe.written <+: script
      rw [hwritten]
      exact List.take_prefix _ _
    · exact (huntold (by rw [point]; rfl) htold).elim
  | writeFails point more =>
    refine ⟨?_, ?_, h.in_order, (fun _ hfailed => by cases hfailed), fun htold => ?_,
      fun hpoint => by cases hpoint⟩
    · rintro (hpoint | hpoint) <;> cases hpoint
    · intro i hpoint
      cases hpoint
    · exact (huntold (by rw [point]; rfl) htold).elim
  | @leavesLoop i point all =>
    refine ⟨?_, ?_, h.in_order, fun _ _ _ => ?_, fun htold => ?_, fun hpoint => by cases hpoint⟩
    · rintro (hpoint | hpoint) <;> cases hpoint
    · intro i hpoint
      cases hpoint
    · change s.pipe.written = script
      rw [(h.writing i point).2, List.take_of_length_le all]
    · exact (huntold (by rw [point]; rfl) htold).elim
  | closesRead point =>
    refine ⟨?_, ?_, h.in_order, fun _ => h.all (by rw [point]; rfl), fun htold => ?_,
      fun hpoint => by cases hpoint⟩
    · rintro (hpoint | hpoint) <;> cases hpoint
    · intro i hpoint
      cases hpoint
    · exact (huntold (by rw [point]; rfl) htold).elim
  | closesWrite point =>
    refine ⟨?_, ?_, h.in_order, fun _ => h.all (by rw [point]; rfl), fun htold => ?_,
      fun hpoint => by cases hpoint⟩
    · rintro (hpoint | hpoint) <;> cases hpoint
    · intro i hpoint
      cases hpoint
    · exact (huntold (by rw [point]; rfl) htold).elim
  | waited point exited =>
    refine ⟨?_, ?_, h.in_order, fun _ => h.all (by rw [point]; rfl), fun htold => ?_,
      fun _ => Or.inr exited⟩
    · rintro (hpoint | hpoint) <;> cases hpoint
    · intro i hpoint
      cases hpoint
    · exact ⟨rfl, (h.ended htold).2⟩
  | dup2 ok point =>
    exact h.aside hends ⟨rfl, rfl, rfl, id, by simp [point], by simp [point], Or.inl⟩
  | childClosesRead point =>
    exact h.aside hends ⟨rfl, rfl, rfl, id, by simp [point], by simp [point], Or.inl⟩
  | childClosesWrite point =>
    exact h.aside hends ⟨rfl, rfl, rfl, id, by simp [point], by simp [point], Or.inl⟩
  | execlp point =>
    exact h.aside hends ⟨rfl, rfl, rfl, id, by simp [point], by simp [point], Or.inl⟩
  | childReads n point reads =>
    exact h.aside hends ⟨rfl, rfl, s.pipe.written_take n, fun hempty => waiting_take hempty n,
      Iff.rfl, id, Or.inl⟩
  | childForks point reads => exact h.aside hends ⟨rfl, rfl, rfl, id, Iff.rfl, id, Or.inl⟩
  | childDrops point reads => exact h.aside hends ⟨rfl, rfl, rfl, id, Iff.rfl, id, Or.inl⟩
  | childExits born lives =>
    exact h.aside hends ⟨rfl, rfl, rfl, id, by simp [born], fun _ => rfl, Or.inl⟩
  | otherReads n others =>
    exact h.aside hends ⟨rfl, rfl, s.pipe.written_take n, fun hempty => waiting_take hempty n,
      Iff.rfl, id, Or.inl⟩
  | otherForks others => exact h.aside hends ⟨rfl, rfl, rfl, id, Iff.rfl, id, Or.inl⟩
  | otherDrops others => exact h.aside hends ⟨rfl, rfl, rfl, id, Iff.rfl, id, Or.inl⟩
  | ends point reads empty last =>
    exact h.aside hends ⟨rfl, rfl, rfl, id, Iff.rfl, id,
      fun _ => Or.inr ⟨empty, last, by rw [point]; decide⟩⟩

/-! ## Every run -/

theorem ends_run {labels : List ShellLabel}
    (hrun : Run (fun s l t => step script s l = some t) (start page slots) labels s) :
    s.Ends ∧ s.Sent script := by
  refine hrun.invariant (I := fun s => s.Ends ∧ s.Sent script) (fun s l t h hstep => ?_)
    ⟨ends_start, sent_start⟩
  have hmoves := step_moves hstep
  exact ⟨h.1.moves hmoves, h.2.moves h.1 hmoves⟩

theorem Ends.fed (hends : s.Ends) (hsent : s.Sent script) : s.Fed script where
  in_order := (List.prefix_append _ _).trans hsent.in_order
  whole htold hfailed := by
    obtain ⟨hwrites, hempty, hborn⟩ := hsent.ended htold
    have hbehind : behindLoop s.parent = true := by
      cases hpoint : s.parent with
      | pipe => exact absurd (hsent.fresh (Or.inl hpoint)).1 hborn
      | fork => exact absurd (hsent.fresh (Or.inr hpoint)).1 hborn
      | writing i =>
        rw [hpoint] at hwrites
        cases hwrites
      | _ => rfl
    have hwritten := hsent.all hbehind hfailed hborn
    rwa [Pipe.written, hempty, List.append_nil] at hwritten
  reader i hpoint := by
    have hreads : s.parentReads = true := (hends.at_parent hpoint).1
    unfold Exec.readEnds
    rw [if_pos hreads]
    omega
  told hpoint hbash hreads hempty := by
    refine ⟨_, if_pos ⟨hbash, hreads, hempty, ?_⟩⟩
    rw [hends.writable_iff, hpoint, hbash]
    simp [holdsWrite, childHolds]
  released hpoint := by
    obtain ⟨hreads, hwrites⟩ := hends.at_parent hpoint
    exact ⟨hreads, hwrites, hsent.gone hpoint⟩

end Shell

/-- However the parent, bash and what bash has started take turns: bash reads the script in
order and is told of the end only behind all of it, no write meets a pipe without readers, bash
is not left waiting for the end, and `exec_script` gives up both ends of the pipe and its
child. -/
theorem script_fed (page slots : ℕ) (script : Bytes) (labels : List ShellLabel)
    (s : Shell page slots)
    (hrun : Run (fun s l t => Shell.step script s l = some t) (Shell.start page slots) labels s) :
    s.Fed script := by
  obtain ⟨hends, hsent⟩ := Shell.ends_run hrun
  exact hends.fed hsent

/-! ## Patient shells -/

namespace Shell

variable {page slots : ℕ} {script : Bytes} {s t : Shell page slots}

/-- The descriptors of the read end that the child of a patient shell has, where it can be. -/
def patientReads : ChildPoint → Option ℕ
  | .unborn | .exited => some 0
  | .dup2 | .closeWrite true | .execlp true | .bash => some 1
  | .closeRead true => some 2
  | _ => none

/-- What a patient shell keeps: it has one descriptor of its input, nobody else has one, and
it has exited only behind the end. -/
structure Waits (s : Shell page slots) : Prop where
  reads : patientReads s.child = some s.childReads
  others : s.othersRead = 0
  exited : s.child = .exited → s.ended = true
  born : s.child = .unborn → s.parent = .pipe ∨ s.parent = .fork ∨ s.parent = .returned

theorem waits_start : Waits (start page slots) :=
  ⟨rfl, rfl, (fun hexited => by cases hexited), fun _ => Or.inl rfl⟩

theorem Waits.at_child (h : s.Waits) {point : ChildPoint} (hpoint : s.child = point) :
    patientReads point = some s.childReads := by
  rw [← hpoint]
  exact h.reads

/-- A step of the parent behind `fork`. -/
theorem Waits.parent (h : s.Waits) (hborn : s.child ≠ .unborn) (hchild : t.child = s.child)
    (hreads : t.childReads = s.childReads) (hothers : t.othersRead = s.othersRead)
    (hended : t.ended = s.ended) : t.Waits where
  reads := by
    rw [hchild, hreads]
    exact h.reads
  others := hothers.trans h.others
  exited hexited := by
    rw [hchild] at hexited
    rw [hended]
    exact h.exited hexited
  born hunborn := absurd (hchild.symm.trans hunborn) hborn

theorem Waits.moves {l : ShellLabel} (h : s.Waits)
    (hmoves : Moves script s l t) (hpatient : s.Patient l) : t.Waits := by
  have hborn : s.parent ≠ .pipe → s.parent ≠ .fork → s.parent ≠ .returned → s.child ≠ .unborn := by
    intro hpipe hfork hreturned hunborn
    rcases h.born hunborn with hpoint | hpoint | hpoint
    · exact hpipe hpoint
    · exact hfork hpoint
    · exact hreturned hpoint
  cases hmoves with
  | noPipe point => exact ⟨h.reads, h.others, h.exited, fun _ => Or.inr (Or.inr rfl)⟩
  | pipe point => exact ⟨h.reads, h.others, h.exited, fun _ => Or.inr (Or.inl rfl)⟩
  | noFork point => exact ⟨h.reads, h.others, h.exited, fun _ => Or.inr (Or.inr rfl)⟩
  | fork point =>
    exact ⟨rfl, h.others, (fun hexited => by cases hexited), fun hunborn => by cases hunborn⟩
  | writes point put =>
    exact h.parent (hborn (by simp [point]) (by simp [point]) (by simp [point])) rfl rfl rfl rfl
  | writeFails point more =>
    exact h.parent (hborn (by simp [point]) (by simp [point]) (by simp [point])) rfl rfl rfl rfl
  | leavesLoop point all =>
    exact h.parent (hborn (by simp [point]) (by simp [point]) (by simp [point])) rfl rfl rfl rfl
  | closesRead point =>
    exact h.parent (hborn (by simp [point]) (by simp [point]) (by simp [point])) rfl rfl rfl rfl
  | closesWrite point =>
    exact h.parent (hborn (by simp [point]) (by simp [point]) (by simp [point])) rfl rfl rfl rfl
  | waited point exited =>
    exact h.parent (by rw [exited]; decide) rfl rfl rfl rfl
  | dup2 ok point =>
    obtain rfl : ok = true := hpatient
    have hreads := Option.some.inj (h.at_child point)
    refine ⟨?_, h.others, (fun hexited => by cases hexited), fun hunborn => by cases hunborn⟩
    change some 2 = some (s.childReads + 1)
    rw [← hreads]
  | @childClosesRead ret point =>
    have hreads := h.at_child point
    cases ret
    · cases hreads
    · refine ⟨?_, h.others, (fun hexited => by cases hexited), fun hunborn => by cases hunborn⟩
      change some 1 = some (s.childReads - 1)
      rw [← Option.some.inj hreads]
  | @childClosesWrite ret point =>
    have hreads := h.at_child point
    cases ret
    · cases hreads
    · exact ⟨hreads, h.others, (fun hexited => by cases hexited), fun hunborn => by cases hunborn⟩
  | execlp point =>
    have hreads := h.at_child point
    exact ⟨hreads, h.others, (fun hexited => by cases hexited), fun hunborn => by cases hunborn⟩
  | childReads n point reads => exact ⟨h.reads, h.others, h.exited, h.born⟩
  | childForks point reads => exact hpatient.elim
  | childDrops point reads => exact hpatient.elim
  | childExits born lives =>
    exact ⟨rfl, h.others, fun _ => hpatient, fun hunborn => by cases hunborn⟩
  | otherReads n others => exact absurd h.others (by omega)
  | otherForks others => exact absurd h.others (by omega)
  | otherDrops others => exact absurd h.others (by omega)
  | ends point reads empty last => exact ⟨h.reads, h.others, fun _ => rfl, h.born⟩

/-! ### Every step counts -/

/-- The steps that the parent has still before it, and two for each byte it has to write. -/
def parentLeft (script : Bytes) : ParentPoint → ℕ
  | .pipe => 2 * script.length + 12
  | .fork => 2 * script.length + 11
  | .writing i => 2 * (script.length - i) + 4
  | .closeRead => 3
  | .closeWrite => 2
  | .waitpid => 1
  | .returned => 0

def childLeft : ChildPoint → ℕ
  | .unborn | .exited => 0
  | .dup2 => 6
  | .closeRead _ => 5
  | .closeWrite _ => 4
  | .execlp _ => 3
  | .bash => 2

/-- A bound on the steps that are left. -/
def left (script : Bytes) (s : Shell page slots) : ℕ :=
  parentLeft script s.parent + childLeft s.child + s.pipe.waiting.length +
    (if s.ended then 0 else 1)

theorem left_moves {l : ShellLabel} (h : s.Waits) (hsent : s.Sent script)
    (hmoves : Moves script s l t) (hpatient : s.Patient l) : left script t < left script s := by
  unfold left
  cases hmoves with
  | @writes i pipe point put =>
    have hwaiting : pipe.waiting.length =
        s.pipe.waiting.length + ((script.drop i).take page).length := by
      rw [s.pipe.waiting_put? put, List.length_append]
    have hlength := Exec.length_chunk script i page
    have hpos := List.length_pos_iff.mpr (s.pipe.put?_eq_some put).1
    simp only [point, parentLeft, hwaiting]
    omega
  | childReads n point reads =>
    obtain ⟨hpos, hsome⟩ := hpatient
    have hwaiting : (s.pipe.take n).waiting.length = s.pipe.waiting.length - n := by
      rw [Pipe.waiting_take, List.length_drop]
    have hlength := List.length_pos_iff.mpr hsome
    dsimp only
    rw [hwaiting]
    omega
  | ends point reads empty last =>
    have huntold : s.ended = false := hpatient
    dsimp only
    rw [huntold]
    simp
  | childExits born lives =>
    have hlives : 0 < childLeft s.child := by
      cases hchild : s.child with
      | unborn => exact absurd hchild born
      | exited => exact absurd hchild lives
      | _ => simp [childLeft]
    simp only [childLeft] at hlives ⊢
    omega
  | fork point =>
    have hunborn := (hsent.fresh (Or.inr point)).1
    simp only [point, hunborn, parentLeft, childLeft]
    omega
  | noPipe point =>
    simp only [point, parentLeft]
    omega
  | pipe point =>
    simp only [point, parentLeft]
    omega
  | noFork point =>
    simp only [point, parentLeft]
    omega
  | writeFails point more =>
    simp only [point, parentLeft]
    omega
  | leavesLoop point all =>
    simp only [point, parentLeft]
    omega
  | closesRead point =>
    simp only [point, parentLeft]
    omega
  | closesWrite point =>
    simp only [point, parentLeft]
    omega
  | waited point exited =>
    simp only [point, parentLeft]
    omega
  | dup2 ok point =>
    simp only [point, childLeft]
    omega
  | childClosesRead point =>
    simp only [point, childLeft]
    omega
  | childClosesWrite point =>
    simp only [point, childLeft]
    omega
  | execlp point =>
    simp only [point, childLeft]
    omega
  | childForks point reads => exact hpatient.elim
  | childDrops point reads => exact hpatient.elim
  | otherReads n others => exact absurd h.others (by omega)
  | otherForks others => exact absurd h.others (by omega)
  | otherDrops others => exact absurd h.others (by omega)

/-! ### Somebody can go on -/

theorem exists_of_parent {l : ExecLabel} {e : Exec page slots}
    (h : s.toExec.parentStep script l = some e) : ∃ t, s.step script (.exec l) = some t := by
  refine ⟨{ s.follow l with toExec := e }, ?_⟩
  simp only [step, Exec.step, h, Option.some_or, Option.map_some]

variable (script) in
theorem exists_of_child {l : ExecLabel} {e : Exec page slots} (h : s.toExec.childStep l = some e) :
    ∃ t, s.step script (.exec l) = some t := by
  cases hparent : s.toExec.parentStep script l with
  | some e' => exact exists_of_parent hparent
  | none =>
    refine ⟨{ s.follow l with toExec := e }, ?_⟩
    simp only [step, Exec.step, hparent, h, Option.none_or, Option.some_or, Option.map_some]

/-- The child of a patient shell that has bytes to read, or is told of the end, goes on. -/
theorem Waits.child_goesOn (h : s.Waits) (hborn : s.child ≠ .unborn) (hlives : s.child ≠ .exited)
    (hinput : s.pipe.waiting ≠ [] ∨ ¬ holdsWrite s.parent = true) (hends : s.Ends) :
    ∃ l t, PatientStep script s l t := by
  have hreads := h.reads
  cases hchild : s.child with
  | unborn => exact absurd hchild hborn
  | exited => exact absurd hchild hlives
  | dup2 =>
    obtain ⟨t, ht⟩ := exists_of_child script (l := .dup2 true) (if_pos hchild)
    exact ⟨_, t, ht, rfl⟩
  | closeRead ret =>
    obtain ⟨t, ht⟩ : ∃ t, s.step script (.exec .childCloses) = some t := by
      refine exists_of_child script (e := { s.toExec with
        child := .closeWrite ret, childReads := s.childReads - 1 }) ?_
      simp only [Exec.childStep, hchild]
    exact ⟨_, t, ht, trivial⟩
  | closeWrite ret =>
    obtain ⟨t, ht⟩ : ∃ t, s.step script (.exec .childCloses) = some t := by
      refine exists_of_child script (e := { s.toExec with child := .execlp ret }) ?_
      simp only [Exec.childStep, hchild]
    exact ⟨_, t, ht, trivial⟩
  | execlp ret =>
    rw [hchild] at hreads
    cases ret
    · cases hreads
    · obtain ⟨t, ht⟩ := exists_of_child script (l := .execlp) (if_pos hchild)
      exact ⟨_, t, ht, trivial⟩
  | bash =>
    rw [hchild] at hreads
    have hone : 0 < s.childReads := by
      rw [← Option.some.inj hreads]
      exact Nat.one_pos
    by_cases hempty : s.pipe.waiting = []
    · cases htold : s.ended with
      | true =>
        obtain ⟨t, ht⟩ :=
          exists_of_child script (l := .childExits) (if_pos ⟨hborn, hlives⟩)
        exact ⟨_, t, ht, htold⟩
      | false =>
        have hlast : ¬ s.Writable := by
          rw [hends.writable_iff, hchild]
          simpa [childHolds, hempty] using hinput
        exact ⟨.childEnds, _, if_pos ⟨hchild, hone, hempty, hlast⟩, htold⟩
    · obtain ⟨t, ht⟩ :=
        exists_of_child script (l := .childReads 1) (if_pos ⟨hchild, hone⟩)
      exact ⟨_, t, ht, Nat.one_pos, hempty⟩

/-- Until `exec_script` returns, one of the processes can take a step. -/
theorem Waits.goesOn (hpage : 0 < page) (hslots : 0 < slots) (h : s.Waits) (hends : s.Ends)
    (hsent : s.Sent script) (hpoint : s.parent ≠ .returned) :
    ∃ l t, PatientStep script s l t := by
  have hborn (hpipe : s.parent ≠ .pipe) (hfork : s.parent ≠ .fork) : s.child ≠ .unborn := by
    intro hunborn
    rcases h.born hunborn with hpoint' | hpoint' | hpoint'
    · exact hpipe hpoint'
    · exact hfork hpoint'
    · exact hpoint hpoint'
  cases hparent : s.parent with
  | returned => exact absurd hparent hpoint
  | pipe =>
    obtain ⟨t, ht⟩ : ∃ t, s.step script (.exec (.pipe true)) = some t :=
      exists_of_parent (if_pos hparent)
    exact ⟨_, t, ht, trivial⟩
  | fork =>
    obtain ⟨t, ht⟩ : ∃ t, s.step script (.exec (.fork true)) = some t :=
      exists_of_parent (if_pos hparent)
    exact ⟨_, t, ht, trivial⟩
  | closeRead =>
    obtain ⟨t, ht⟩ : ∃ t, s.step script (.exec .parentCloses) = some t := by
      refine exists_of_parent
        (e := { s.toExec with parent := .closeWrite, parentReads := false }) ?_
      simp only [Exec.parentStep, hparent]
    exact ⟨_, t, ht, trivial⟩
  | closeWrite =>
    obtain ⟨t, ht⟩ : ∃ t, s.step script (.exec .parentCloses) = some t := by
      refine exists_of_parent (e := { s.toExec with parent := .waitpid }) ?_
      simp only [Exec.parentStep, hparent]
    exact ⟨_, t, ht, trivial⟩
  | waitpid =>
    by_cases hexited : s.child = .exited
    · obtain ⟨t, ht⟩ : ∃ t, s.step script (.exec .waitpid) = some t :=
        exists_of_parent (if_pos ⟨hparent, hexited⟩)
      exact ⟨_, t, ht, trivial⟩
    · exact h.child_goesOn (hborn (by simp [hparent]) (by simp [hparent])) hexited
        (Or.inr (by simp [hparent, holdsWrite])) hends
  | writing i =>
    by_cases hall : script.length ≤ i
    · obtain ⟨t, ht⟩ : ∃ t, s.step script (.exec .leavesLoop) = some t := by
        refine exists_of_parent (e := { s.toExec with parent := .closeRead }) ?_
        simp only [Exec.parentStep, hparent, if_pos hall]
      exact ⟨_, t, ht, trivial⟩
    · by_cases hfree : s.pipe.buffers.length < slots
      · obtain ⟨t, ht⟩ : ∃ t, s.step script (.exec .writes) = some t := by
          have hlength := Exec.length_chunk script i page
          obtain ⟨pipe, hput⟩ := s.pipe.put?_isSome ((script.drop i).take page)
            (List.ne_nil_of_length_pos (by omega)) (by omega) hfree
          refine exists_of_parent (e := { s.toExec with
            parent := .writing (i + ((script.drop i).take page).length), pipe }) ?_
          simp only [Exec.parentStep, hparent, hput, Option.map_some]
        exact ⟨_, t, ht, trivial⟩
      · -- the pipe is full, and the child has not exited, as it has not been told of the end
        have hbounded := s.pipe.bounded
        have hwaiting : s.pipe.waiting ≠ [] :=
          s.pipe.waiting_ne_nil_of_full hslots (show s.pipe.buffers.length = slots by omega)
        have hlives : s.child ≠ .exited := by
          intro hexited
          exact hwaiting (hsent.ended (h.exited hexited)).2.1
        exact h.child_goesOn (hborn (by simp [hparent]) (by simp [hparent])) hlives
          (Or.inl hwaiting) hends

/-- Behind `exec_script` there is nobody who could. -/
theorem Waits.done (h : s.Waits) (hpoint : s.parent = .returned)
    (hgone : s.child = .unborn ∨ s.child = .exited) : s.Done script := by
  have hothers := h.others
  have hchild {point : ChildPoint} (hpoint : s.child = point) (hunborn : point ≠ .unborn)
      (hexited : point ≠ .exited) : False := by
    rw [hpoint] at hgone
    exact hgone.elim hunborn hexited
  rintro l t ⟨hstep, -⟩
  cases step_moves hstep with
  | noPipe point => simp [hpoint] at point
  | pipe point => simp [hpoint] at point
  | noFork point => simp [hpoint] at point
  | fork point => simp [hpoint] at point
  | writes point put => simp [hpoint] at point
  | writeFails point more => simp [hpoint] at point
  | leavesLoop point all => simp [hpoint] at point
  | closesRead point => simp [hpoint] at point
  | closesWrite point => simp [hpoint] at point
  | waited point exited => simp [hpoint] at point
  | dup2 ok point => exact hchild point (by simp) (by simp)
  | childClosesRead point => exact hchild point (by simp) (by simp)
  | childClosesWrite point => exact hchild point (by simp) (by simp)
  | execlp point => exact hchild point (by simp) (by simp)
  | childReads n point reads => exact hchild point (by simp) (by simp)
  | childForks point reads => exact hchild point (by simp) (by simp)
  | childDrops point reads => exact hchild point (by simp) (by simp)
  | childExits born lives => exact hgone.elim born lives
  | otherReads n others => omega
  | otherForks others => omega
  | otherDrops others => omega
  | ends point reads empty last => exact hchild point (by simp) (by simp)

/-- What holds in every run of a patient shell. -/
theorem patient_run {labels : List ShellLabel}
    (hrun : Run (PatientStep script) (start page slots) labels s) :
    (s.Ends ∧ s.Sent script ∧ s.Waits) ∧
      labels.length + left script s ≤ 2 * script.length + 13 := by
  let I (s : Shell page slots) : Prop := s.Ends ∧ s.Sent script ∧ s.Waits
  have hstep : ∀ s l t, I s → PatientStep script s l t → I t := by
    rintro s l t ⟨hends, hsent, hwaits⟩ ⟨hstep, hpatient⟩
    have hmoves := step_moves hstep
    exact ⟨hends.moves hmoves, hsent.moves hends hmoves, hwaits.moves hmoves hpatient⟩
  have hstart : I (start page slots) := ⟨ends_start, sent_start, waits_start⟩
  refine ⟨hrun.invariant (I := I) hstep hstart, ?_⟩
  have hlength := hrun.length_add_le (μ := left script) hstep (fun s l t h hpatient =>
    left_moves h.2.2 h.2.1 (step_moves hpatient.1) hpatient.2) hstart
  exact hlength

end Shell

/-- If bash is started, reads its input itself and exits behind the end of it, then in whatever
order the processes take their steps, there are only so many, they end when `exec_script` has
returned and not before, and unless a `write` has failed bash has read the whole script. -/
theorem patient_shell_returns (page slots : ℕ) (hpage : 0 < page) (hslots : 0 < slots)
    (script : Bytes) (labels : List ShellLabel) (s : Shell page slots)
    (hrun : Run (Shell.PatientStep script) (Shell.start page slots) labels s) :
    labels.length ≤ 2 * script.length + 13 ∧ (s.Done script ↔ s.parent = .returned) ∧
      (s.parent = .returned → s.child ≠ .unborn → s.failed = false → s.pipe.taken = script) := by
  obtain ⟨⟨hends, hsent, hwaits⟩, hlength⟩ := Shell.patient_run hrun
  refine ⟨by omega, ⟨fun hdone => ?_, fun hpoint => ?_⟩, fun hpoint hborn hfailed => ?_⟩
  · by_contra hpoint
    obtain ⟨l, t, hstep⟩ := hwaits.goesOn hpage hslots hends hsent hpoint
    exact hdone l t hstep
  · exact hwaits.done hpoint (hsent.gone hpoint)
  · have hexited := (hsent.gone hpoint).resolve_left hborn
    exact (hends.fed hsent).whole (hwaits.exited hexited) hfailed

/-! ## Examples -/

/-- bash reads two bytes out of a pipe that has one buffer for one byte. -/
def narrowRun : List ShellLabel :=
  [.exec (.pipe true), .exec (.fork true), .exec .writes, .exec (.dup2 true),
    .exec .childCloses, .exec .childCloses, .exec .execlp, .exec (.childReads 1),
    .exec .writes, .exec .leavesLoop, .exec .parentCloses, .exec (.childReads 1),
    .exec .parentCloses, .childEnds, .exec .childExits, .exec .waitpid]

theorem narrowRun_patient : ∃ s : Shell 1 1,
    Run (Shell.PatientStep [1, 2]) (Shell.start 1 1) narrowRun s ∧ s.parent = .returned ∧
      s.pipe.taken = [1, 2] := by
  have hread : 0 < 1 ∧ ([1] : Bytes) ≠ [] ∧ ([2] : Bytes) ≠ [] := by decide
  exact ⟨_, .cons ⟨rfl, trivial⟩ (.cons ⟨rfl, trivial⟩ (.cons ⟨rfl, trivial⟩ (.cons ⟨rfl, rfl⟩
    (.cons ⟨rfl, trivial⟩ (.cons ⟨rfl, trivial⟩ (.cons ⟨rfl, trivial⟩
    (.cons ⟨rfl, hread.1, hread.2.1⟩ (.cons ⟨rfl, trivial⟩ (.cons ⟨rfl, trivial⟩
    (.cons ⟨rfl, trivial⟩ (.cons ⟨rfl, hread.1, hread.2.2⟩ (.cons ⟨rfl, trivial⟩
    (.cons ⟨rfl, rfl⟩ (.cons ⟨rfl, rfl⟩ (.cons ⟨rfl, trivial⟩ (.nil _)))))))))))))))), rfl, rfl⟩

theorem script_fed_narrow : ∃ s : Shell 1 1, s.pipe.taken = [1, 2] ∧ s.Fed [1, 2] := by
  obtain ⟨s, hrun, -, htaken⟩ := narrowRun_patient
  exact ⟨s, htaken, script_fed 1 1 _ narrowRun s (hrun.mono fun s l t h => h.1)⟩

theorem patient_shell_returns_narrow : ∃ s : Shell 1 1, s.pipe.taken = [1, 2] ∧ s.Done [1, 2] := by
  obtain ⟨s, hrun, hpoint, htaken⟩ := narrowRun_patient
  have hreturns := patient_shell_returns 1 1 (by decide) (by decide) [1, 2] narrowRun s hrun
  exact ⟨s, htaken, hreturns.2.1.mpr hpoint⟩

end X509Server
