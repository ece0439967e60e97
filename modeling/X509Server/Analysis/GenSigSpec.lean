import X509Server.Analysis.ElementSpec
import X509Server.Analysis.OutputSpec

/-!
# From a file to a message

The buffer of `gen_sig` is doubled before it is used up, so each call of `fread` asks for some
bytes (`readLoop_spec`), and what it has signed is what it has read.
-/

set_option autoImplicit false

namespace X509Server

open Checked

/-! ## The script -/

/-- The buffer always has room, so the loop around `fread` ends where a call delivers nothing,
within one call for each byte of the file. -/
theorem readLoop_spec {file : Bytes} (hfile : file.length < 2 ^ 63) (reads : List ℕ)
    {dataCap : ℕ} {data : Bytes} (hdata : data <+: file) (hroom : data.length < dataCap) :
    (readLoop file reads dataCap data = .error (.code .reading) ∧
      data.length + reads.length ≤ file.length) ∨
    ∃ out, readLoop file reads dataCap data = .ok out ∧ out <+: file ∧
      (0 ∉ reads → out = file) ∧
      out.length ≤ data.length + (reads.takeWhile fun n => 0 < n).sum := by
  induction reads generalizing dataCap data with
  | nil => exact Or.inl ⟨rfl, hdata.length_le⟩
  | cons n reads ih =>
    generalize hchunk : ((file.drop data.length).take (dataCap - data.length)).take n = chunk
    have hlen : chunk.length = min n (min (dataCap - data.length) (file.length - data.length)) := by
      rw [← hchunk]
      simp
    have hnext : readLoop file (n :: reads) dataCap data =
        if chunk.length > 0 then
          if data.length + chunk.length ≥ dataCap then do
            let dataCap ← uadd dataCap dataCap
            readLoop file reads dataCap (data ++ chunk)
          else readLoop file reads dataCap (data ++ chunk)
        else .ok data := by
      rw [readLoop, usub_eq (Nat.le_of_lt hroom), ok_bind]
      dsimp only
      rw [hchunk]
    rw [hnext]
    by_cases hsome : chunk.length > 0
    · have hprefix : data ++ chunk <+: file := by
        obtain ⟨rest, rfl⟩ := hdata
        rw [List.drop_left] at hchunk
        rw [List.prefix_append_right_inj, ← hchunk]
        exact (List.take_prefix _ _).trans (List.take_prefix _ _)
      have hle := hprefix.length_le
      rw [List.length_append] at hle
      have hpos : 0 < n := by omega
      have hsum : ((n :: reads).takeWhile fun n => 0 < n).sum =
          n + (reads.takeWhile fun n => 0 < n).sum := by
        rw [List.takeWhile_cons_of_pos (by simpa using hpos), List.sum_cons]
      -- the buffer is doubled where the chunk has filled it
      have hloop : ∃ dataCap', (data ++ chunk).length < dataCap' ∧
          (if data.length + chunk.length ≥ dataCap then do
            let dataCap ← uadd dataCap dataCap
            readLoop file reads dataCap (data ++ chunk)
          else readLoop file reads dataCap (data ++ chunk)) =
            readLoop file reads dataCap' (data ++ chunk) := by
        rw [List.length_append]
        split
        · refine ⟨dataCap + dataCap, by omega, ?_⟩
          rw [uadd_eq (by omega), ok_bind]
        · exact ⟨dataCap, by omega, rfl⟩
      obtain ⟨dataCap', hroom', hloop⟩ := hloop
      rw [if_pos hsome, hloop, hsum]
      rcases ih hprefix hroom' with ⟨hreading, hcalls⟩ | ⟨out, hok, hout, hwhole, hlength⟩
      · refine Or.inl ⟨hreading, ?_⟩
        rw [List.length_append] at hcalls
        rw [List.length_cons]
        omega
      · refine Or.inr ⟨out, hok, hout, fun hzero => hwhole fun h => hzero (.tail n h), ?_⟩
        rw [List.length_append] at hlength
        omega
    · rw [if_neg hsome]
      refine Or.inr ⟨data, rfl, hdata, fun hzero => ?_, Nat.le_add_right _ _⟩
      have hpos : n ≠ 0 := fun h => hzero (h ▸ .head reads)
      have hle := hdata.length_le
      exact hdata.eq_of_length (by omega)

/-- The script is what has been read of the file. -/
theorem readLoop_start {file : Bytes} (hfile : file.length < 2 ^ 63) (reads : List ℕ) :
    (readLoop file reads (2 ^ 18) [] = .error (.code .reading) ∧ reads.length ≤ file.length) ∨
      ∃ script, readLoop file reads (2 ^ 18) [] = .ok script ∧ ReadFrom file reads script := by
  rcases readLoop_spec hfile reads (List.nil_prefix) (show [].length < 2 ^ 18 by norm_num) with
    ⟨hreading, hcalls⟩ | ⟨out, hok, hprefix, hwhole, hlength⟩
  · exact Or.inl ⟨hreading, by simpa using hcalls⟩
  · exact Or.inr ⟨out, hok, hprefix, hwhole, by simpa using hlength⟩

/-! ## The message -/

/-- Calls of `write` that take at least one byte each write what is left of the data. -/
theorem writeLoop_of_takes {data : Bytes} (hdata : data.length < 2 ^ 64)
    (writes : List WriteResult) {start : ℕ} (out : Bytes) (hwrites : ∀ w ∈ writes, w.Takes)
    (hmany : data.length - start ≤ writes.length) :
    ∃ rest, writeLoop data writes start out = some (out ++ data.drop start, rest) ∧
      (∀ w ∈ rest, w.Takes) ∧ writes.length ≤ rest.length + (data.length - start) := by
  induction writes generalizing start out with
  | nil =>
    have hdone : ¬ start < data.length := by
      rw [List.length_nil] at hmany
      omega
    refine ⟨[], ?_, hwrites, Nat.zero_le _⟩
    rw [writeLoop, if_neg hdone, List.drop_eq_nil_of_le (Nat.not_lt.mp hdone), List.append_nil]
  | cons w writes ih =>
    obtain ⟨n, hpos, rfl⟩ := hwrites w (.head writes)
    have htake : ∀ w ∈ writes, w.Takes := fun w hw => hwrites w (.tail _ hw)
    rw [List.length_cons] at hmany
    by_cases hmore : start < data.length
    · generalize hchunk : (data.drop start).take n = chunk
      have hlen : chunk.length = min n (data.length - start) := by
        rw [← hchunk]
        simp
      obtain ⟨rest, hloop, hrest, hleft⟩ :=
        @ih (start + chunk.length) (out ++ chunk) htake (by omega)
      refine ⟨rest, ?_, hrest, ?_⟩
      · have hsome : chunk.length > 0 := by omega
        have hpieces : chunk ++ data.drop (start + chunk.length) = data.drop start := by
          conv_rhs => rw [← List.take_append_drop n (data.drop start), hchunk, List.drop_drop]
          by_cases hshort : n ≤ data.length - start
          · rw [show chunk.length = n by omega]
          · rw [List.drop_eq_nil_of_le (by omega), List.drop_eq_nil_of_le (by omega)]
        rw [writeLoop, if_pos hmore]
        dsimp only
        rw [hchunk, if_pos hsome, Nat.mod_eq_of_lt (by omega), hloop, List.append_assoc, hpieces]
      · rw [List.length_cons]
        omega
    · refine ⟨.wrote n :: writes, ?_, hwrites, by omega⟩
      rw [writeLoop, if_neg hmore, List.drop_eq_nil_of_le (Nat.not_lt.mp hmore), List.append_nil]

theorem genSigOutput_of_takes {sig script : Bytes} {writes : List WriteResult}
    (hsig : sig.length < 2 ^ 64) (hscript : script.length < 2 ^ 64)
    (hwrites : ∀ w ∈ writes, w.Takes) (hmany : sig.length + script.length < writes.length) :
    genSigOutput sig script writes = some (true, sig ++ 10 :: script) := by
  obtain ⟨rest, hfirst, htake, hleft⟩ :=
    writeLoop_of_takes hsig writes [] hwrites (show sig.length - 0 ≤ writes.length by omega)
  unfold genSigOutput
  rw [hfirst]
  cases rest with
  | nil =>
    rw [List.length_nil] at hleft
    omega
  | cons w rest =>
    obtain ⟨n, hpos, rfl⟩ := htake w (.head rest)
    obtain ⟨n, rfl⟩ := Nat.exists_eq_add_of_le' hpos
    rw [List.length_cons] at hleft
    obtain ⟨rest', hsecond, -⟩ := writeLoop_of_takes hscript rest (sig ++ [10])
      (fun w hw => htake w (.tail _ hw)) (show script.length - 0 ≤ rest.length by omega)
    simp [hsecond]

theorem GenSigCalls.Prepared.genSig_eq {calls : GenSigCalls} {file : Bytes}
    (h : calls.Prepared file) : genSig calls = signFile calls file := by
  obtain ⟨hargc, hkeyFile, hpkey, hmdctx, hinit, hfile⟩ := h
  unfold genSig
  rw [if_neg (by omega), if_neg (not_not.mpr hkeyFile), if_neg (not_not.mpr hpkey),
    if_neg (not_not.mpr hmdctx), if_neg (not_not.mpr hinit), hfile]

theorem signFile_ne_fault (calls : GenSigCalls) {file : Bytes} (hfile : file.length < 2 ^ 63)
    (fault : Fault) : signFile calls file ≠ .error (.fault fault) := by
  unfold signFile
  rcases readLoop_start hfile calls.reads with ⟨hreading, -⟩ | ⟨script, hok, -⟩
  · rw [hreading]
    rintro ⟨⟩
  · rw [hok, ok_bind]
    cases calls.digestSign script with
    | none => rintro ⟨⟩
    | some sig =>
      dsimp only
      rcases genSigOutput sig script calls.writes with _ | ⟨_ | _, out⟩ <;> rintro ⟨⟩

theorem genSig_ne_fault (calls : GenSigCalls)
    (hfile : ∀ file, calls.file = some file → file.length < 2 ^ 63) (fault : Fault) :
    genSig calls ≠ .error (.fault fault) := by
  unfold genSig
  split
  · rintro ⟨⟩
  split
  · rintro ⟨⟩
  split
  · rintro ⟨⟩
  split
  · rintro ⟨⟩
  split
  · rintro ⟨⟩
  cases hopen : calls.file with
  | none => rintro ⟨⟩
  | some file => exact signFile_ne_fault calls (hfile file hopen) fault

/-- `gen_sig` never leaves its buffer, and the size and capacity of that never wrap, however the
file is delivered.  If the calls in front of it succeed, there are results enough and no
`write` fails, then it either cannot sign or writes the signature of what it has read, a
newline and what it has read: the whole file, unless a `fread` delivers nothing before, which
is not told from its end. -/
theorem genSig_message (calls : GenSigCalls)
    (hfile : ∀ file, calls.file = some file → file.length < 2 ^ 63) :
    (∀ fault, genSig calls ≠ .error (.fault fault)) ∧
    ∀ file, calls.Prepared file → calls.Suffice file →
      ∃ script, ReadFrom file calls.reads script ∧
        genSig calls = match calls.digestSign script with
          | none => .error (.code .sign)
          | some sig => .ok (sig ++ 10 :: script) := by
  refine ⟨genSig_ne_fault calls hfile, fun file hprepared hsuffice => ?_⟩
  obtain ⟨hreads, hwrites, htakes⟩ := hsuffice
  have hlen := hfile file hprepared.file_eq
  rw [hprepared.genSig_eq]
  unfold signFile
  rcases readLoop_start hlen calls.reads with ⟨-, hcalls⟩ | ⟨script, hok, hread⟩
  · omega
  refine ⟨script, hread, ?_⟩
  rw [hok, ok_bind]
  cases hsign : calls.digestSign script with
  | none => rfl
  | some sig =>
    have hscript := hread.isPrefix.length_le
    have hsig := calls.sig_le script sig hsign
    dsimp only
    rw [genSigOutput_of_takes (by omega) (by omega) htakes (by omega)]

/-- A `fread` that fails behind the second of three bytes. -/
def brokenRead : GenSigCalls where
  argc := 3
  keyFile := true
  pkey := true
  mdctx := true
  digestSignInit := true
  file := some [1, 2, 3]
  reads := [2, 0, 1, 0]
  digestSign _ := some [9]
  writes := List.replicate (2 ^ 18 + 4) (.wrote 1)
  sig_le data sig h := by
    obtain rfl := Option.some.inj h
    norm_num

/-- The first two bytes are signed and written. -/
theorem genSig_message_brokenRead :
    ∃ script, ReadFrom [1, 2, 3] brokenRead.reads script ∧ script.length ≤ 2 ∧
      genSig brokenRead = .ok ([9] ++ 10 :: script) := by
  have hfile : ∀ file, brokenRead.file = some file → file.length < 2 ^ 63 := by
    intro file h
    obtain rfl := Option.some.inj h
    norm_num
  have hsuffice : brokenRead.Suffice [1, 2, 3] := by
    refine ⟨by decide, ?_, ?_⟩
    · change 2 ^ 18 + 3 < (List.replicate (2 ^ 18 + 4) (WriteResult.wrote 1)).length
      rw [List.length_replicate]
      omega
    · intro w hw
      exact ⟨1, Nat.one_pos, List.eq_of_mem_replicate hw⟩
  obtain ⟨script, hread, hok⟩ :=
    (genSig_message brokenRead hfile).2 [1, 2, 3] ⟨by decide, rfl, rfl, rfl, rfl, rfl⟩ hsuffice
  exact ⟨script, hread, hread.length_le, hok⟩

end X509Server
