import X509Server.Library.Der
import X509Server.Model.Element

/-!
# What the element parsers accept

`Reads raw idx parentEnd identifier start contentEnd content rest` says that at `idx`,
within `parentEnd`, there stands the element of `identifier` and `content`, followed by
`rest`; the content occupies `[start, contentEnd)`.  `parseAny` establishes it for
whatever it accepts without ever faulting (`parseAny_safe`), and accepts wherever it holds
(`Reads.parseAny_eq`).  Everything above the element parsers goes through these two
lemmas and the window equations of `Reads`.
-/

set_option autoImplicit false

namespace X509Server

open Checked ByteWindow Der

/-! ## Guarded operations that succeed -/

section Operations

variable {ε : Type} {raw : Bytes}

theorem uadd_eq {a b : ℕ} (h : a + b < 2 ^ 64) : (uadd a b : Guarded ε ℕ) = .ok (a + b) :=
  if_pos h

theorem usub_eq {a b : ℕ} (h : b ≤ a) : (usub a b : Guarded ε ℕ) = .ok (a - b) :=
  if_pos h

theorem rawByte_eq {i : ℕ} {b : UInt8} (h : raw[i]? = some b) :
    (rawByte raw i : Guarded ε UInt8) = .ok b := by
  simp [rawByte, h]

/-- The byte under the cursor is the head of the window. -/
theorem rawByte_of_window {i e : ℕ} {b : UInt8} {w : Bytes} (h : window raw i e = b :: w) :
    (rawByte raw i : Guarded ε UInt8) = .ok b :=
  rawByte_eq (of_window_cons h).2.1

theorem rawRange_eq {start size : ℕ} (h : start + size ≤ raw.length) :
    (rawRange raw start size : Guarded ε Bytes) = .ok (window raw start (start + size)) :=
  if_pos h

/-- `memeq` of two ranges inside the buffer compares the bytes they hold. -/
theorem memeq_eq {s0 n0 s1 n1 : ℕ} (h0 : s0 + n0 ≤ raw.length) (h1 : s1 + n1 ≤ raw.length) :
    (memeq raw s0 n0 s1 n1 : Guarded ε Bool) =
      .ok (decide (window raw s0 (s0 + n0) = window raw s1 (s1 + n1))) := by
  unfold memeq
  by_cases hn : n0 = n1
  · subst hn
    rw [if_pos rfl, rawRange_eq h0, rawRange_eq h1]
    rfl
  · rw [if_neg hn]
    have hne : window raw s0 (s0 + n0) ≠ window raw s1 (s1 + n1) := by
      intro heq
      have hlen := congrArg List.length heq
      rw [length_window s0 h0, length_window s1 h1] at hlen
      omega
    simp [hne]

/-- `memeqConst` compares a table entry with the bytes of a range. -/
theorem memeqConst_eq {entry : Bytes} {s n : ℕ} (h : s + n ≤ raw.length) :
    (memeqConst entry raw s n : Guarded ε Bool) =
      .ok (decide (entry = window raw s (s + n))) := by
  unfold memeqConst
  by_cases hn : entry.length = n
  · rw [if_pos hn, rawRange_eq h]
    rfl
  · rw [if_neg hn]
    have hne : entry ≠ window raw s (s + n) := by
      intro heq
      have hlen := congrArg List.length heq
      rw [length_window s h] at hlen
      omega
    simp [hne]

theorem assertThat_eq {c : Bool} (h : c = true) : (assertThat c : Guarded ε Unit) = .ok () :=
  if_pos h

end Operations

/-! ## Single octets -/

/-- A statement about an octet may be checked value by value. -/
theorem forall_octet {p : UInt8 → Prop} (h : ∀ n : Fin 256, p (UInt8.ofNat n.val))
    (b : UInt8) : p b := by
  have := h ⟨b.toNat, b.toNat_lt⟩
  simpa using this

theorem longForm_iff (b : UInt8) : b &&& derLengthFormMask > 0 ↔ 128 ≤ b.toNat := by
  revert b
  apply forall_octet
  decide +kernel

theorem toNat_lengthOctets {b : UInt8} (h : 128 ≤ b.toNat) :
    (b &&& ~~~derLengthFormMask).toNat = b.toNat - 128 := by
  revert b
  apply forall_octet
  decide +kernel

/-! ## Elements -/

/-- At `idx` there stands the element of `identifier` and `content`; its content occupies
`[start, contentEnd)` and `rest` follows it up to `parentEnd`. -/
structure Reads (raw : Bytes) (idx parentEnd : ℕ) (identifier : UInt8)
    (start contentEnd : ℕ) (content rest : Bytes) : Prop where
  window_eq : window raw idx parentEnd = tlv identifier content ++ rest
  start_eq : start = idx + headerLength content
  end_eq : contentEnd = start + content.length

section Reads

variable {raw : Bytes} {idx parentEnd start contentEnd : ℕ} {identifier : UInt8}
  {content rest : Bytes}

/-- A window that begins with an element. -/
theorem Reads.of_window (h : window raw idx parentEnd = tlv identifier content ++ rest) :
    Reads raw idx parentEnd identifier (idx + headerLength content)
      (idx + headerLength content + content.length) content rest :=
  ⟨h, rfl, rfl⟩

/-- A window that is one element. -/
theorem Reads.of_window_eq (h : window raw idx parentEnd = tlv identifier content) :
    Reads raw idx parentEnd identifier (idx + headerLength content)
      (idx + headerLength content + content.length) content [] :=
  ⟨h.trans (List.append_nil _).symm, rfl, rfl⟩

/-- The cursor moves past a header of at least two octets. -/
theorem Reads.idx_lt (h : Reads raw idx parentEnd identifier start contentEnd content rest) :
    idx + 2 ≤ start := by
  have := two_le_headerLength content
  have := h.start_eq
  omega

theorem Reads.start_le (h : Reads raw idx parentEnd identifier start contentEnd content rest) :
    start ≤ contentEnd := by
  have := h.end_eq
  omega

/-- An element and what follows it fill the parent. -/
theorem Reads.end_le (h : Reads raw idx parentEnd identifier start contentEnd content rest) :
    contentEnd + rest.length ≤ parentEnd := by
  have hle := le_of_window_append h.window_eq (tlv_ne_nil identifier content)
  rw [length_tlv] at hle
  have h1 := h.start_eq
  have h2 := h.end_eq
  omega

/-- The window of the content shows the content. -/
theorem Reads.content_eq
    (h : Reads raw idx parentEnd identifier start contentEnd content rest) :
    window raw start contentEnd = content := by
  have hw := h.window_eq
  rw [tlv, List.cons_append, List.append_assoc] at hw
  have hhead : window raw idx parentEnd =
      (identifier :: lengthOctets content.length) ++ (content ++ rest) := by
    rw [hw, List.cons_append]
  have hstart := (of_window_append hhead).2
  have hcontent := (of_window_append hstart).1
  rw [h.end_eq, h.start_eq, headerLength]
  rw [List.length_cons] at hcontent
  rwa [Nat.add_comm 1]

/-- The window behind the element shows the rest. -/
theorem Reads.rest_eq
    (h : Reads raw idx parentEnd identifier start contentEnd content rest) :
    window raw contentEnd parentEnd = rest := by
  have hrest := (of_window_append h.window_eq).2
  rw [length_tlv] at hrest
  rwa [h.end_eq, h.start_eq, Nat.add_assoc]

theorem Reads.length_content
    (h : Reads raw idx parentEnd identifier start contentEnd content rest) :
    content.length = contentEnd - start := by
  have := h.end_eq
  omega

/-- The element fills its parent exactly when nothing follows. -/
theorem Reads.rest_eq_nil_iff
    (h : Reads raw idx parentEnd identifier start contentEnd content rest)
    (hend : parentEnd ≤ raw.length) : rest = [] ↔ contentEnd = parentEnd := by
  have hle := h.end_le
  have hrest := congrArg List.length h.rest_eq
  rw [length_window _ hend] at hrest
  rw [← List.length_eq_zero_iff]
  omega

end Reads

section Parsers

variable {raw : Bytes} {idx parentEnd : ℕ}

/-- Eight octets hold a `uinta`. -/
theorem pow_octets_le {k : ℕ} (h : k ≤ 8) : (0 + 1) * 256 ^ k ≤ 2 ^ 64 := by
  calc (0 + 1) * 256 ^ k ≤ 256 ^ 8 := by
        rw [Nat.zero_add, Nat.one_mul]
        exact Nat.pow_le_pow_right (by norm_num) h
    _ ≤ 2 ^ 64 := by norm_num

/-- The length loop reads the big-endian number in front of it. -/
theorem lengthLoop_eq (ds : Bytes) (idx length : ℕ) (r : Bytes)
    (hw : window raw idx parentEnd = ds ++ r) (hend : parentEnd < 2 ^ 63)
    (hfit : (length + 1) * 256 ^ ds.length ≤ 2 ^ 64) :
    lengthLoop raw ds.length idx length =
      .ok (idx + ds.length, ds.foldl (fun n b => n * 256 + b.toNat) length) := by
  induction ds generalizing idx length with
  | nil => rfl
  | cons d ds ih =>
    have hd := d.toNat_lt
    have hpow : 1 ≤ 256 ^ ds.length := Nat.one_le_pow _ _ (by norm_num)
    have hstep : length <<< 8 ||| d.toNat = length * 256 + d.toNat := by
      rw [← Nat.shiftLeft_add_eq_or_of_lt (by omega), Nat.shiftLeft_eq]
    have hnext : (length * 256 + d.toNat + 1) * 256 ^ ds.length ≤ 2 ^ 64 := by
      calc (length * 256 + d.toNat + 1) * 256 ^ ds.length
          ≤ ((length + 1) * 256) * 256 ^ ds.length := Nat.mul_le_mul_right _ (by omega)
        _ = (length + 1) * 256 ^ (ds.length + 1) := by rw [pow_succ]; ring
        _ ≤ 2 ^ 64 := by simpa using hfit
    have hsmall : length * 256 + d.toNat < 2 ^ 64 := by nlinarith
    obtain ⟨hlt, -, htail⟩ := of_window_cons hw
    simp only [List.length_cons, lengthLoop, List.foldl_cons]
    rw [rawByte_of_window hw, ok_bind, uadd_eq (by omega), ok_bind, hstep,
      Nat.mod_eq_of_lt hsmall, ih (idx + 1) (length * 256 + d.toNat) htail hnext]
    congr 2
    omega

/-- What the long-form branch accepts: at most eight octets without leading zero, of a
length that needs the long form. -/
theorem parseLongLength_safe {count : ℕ} (hidx : idx ≤ parentEnd)
    (hend : parentEnd ≤ raw.length) (hsize : parentEnd < 2 ^ 63) (hpos : 0 < count)
    (hcount : count < 128) :
    Safe (parseLongLength raw idx parentEnd count) fun p =>
      ∃ ds r, window raw idx parentEnd = ds ++ r ∧ ds.length = count ∧
        p = (idx + ds.length, beNat ds) ∧ (∀ d ∈ ds.head?, d ≠ 0) ∧ 128 ≤ beNat ds := by
  unfold parseLongLength
  rw [uadd_eq (by omega), ok_bind]
  refine Safe.ite (fun _ => safe_code _ _) fun hfits => ?_
  obtain ⟨first, hfirst, hwin⟩ := window_eq_cons (b := raw) (i := idx) (e := parentEnd)
    (by omega) hend
  rw [rawByte_eq hfirst, ok_bind]
  refine Safe.ite (fun _ => safe_code _ _) fun hnonzero => ?_
  refine Safe.ite (fun _ => safe_code _ _) fun height => ?_
  -- the octets of the length are the first part of what the cursor sees
  have hsplit := window_split raw (i := idx) (m := idx + count) (e := parentEnd) (by omega)
    (by omega)
  have hlen := length_window (b := raw) idx (show idx + count ≤ raw.length by omega)
  generalize window raw idx (idx + count) = ds at hsplit hlen
  generalize window raw (idx + count) parentEnd = r at hsplit
  have hdslen : ds.length = count := by omega
  rw [← hdslen, lengthLoop_eq ds idx 0 r hsplit (by omega) (pow_octets_le (by omega)), ok_bind]
  refine Safe.ite (fun _ => safe_code _ _) fun hmin => ?_
  have hmin' : 127 < beNat ds := by simpa [beNat] using hmin
  refine ⟨ds, r, hsplit, rfl, rfl, ?_, hmin'⟩
  intro d hd
  cases ds with
  | nil => simp at hd
  | cons e ds =>
    rw [List.cons_append, hwin] at hsplit
    obtain ⟨rfl, -⟩ := List.cons.inj hsplit
    simp only [List.head?_cons, Option.mem_def, Option.some.injEq] at hd
    rw [← hd]
    exact hnonzero

/-- Both length forms hand over the shortest encoding of the length they decode. -/
theorem parseLength_safe {lengthByte : UInt8} {w : Bytes}
    (hw : window raw idx parentEnd = lengthByte :: w) (hend : parentEnd ≤ raw.length)
    (hsize : parentEnd < 2 ^ 63) (hform : lengthByte ≠ derLengthIndefinite) :
    Safe (parseLength raw (idx + 1) parentEnd lengthByte) fun p => ∃ r,
      window raw idx parentEnd = lengthOctets p.2 ++ r ∧
        p.1 = idx + (lengthOctets p.2).length := by
  obtain ⟨hlt, -, htail⟩ := of_window_cons hw
  have hb := lengthByte.toNat_lt
  unfold parseLength
  refine Safe.ite (fun hlong => ?_) fun hshort => ?_
  · rw [longForm_iff] at hlong
    have hne : lengthByte.toNat ≠ 128 := fun heq => hform (UInt8.toNat_inj.mp heq)
    rw [toNat_lengthOctets hlong]
    refine (parseLongLength_safe (by omega) hend hsize (by omega) (by omega)).mono ?_
    rintro p ⟨ds, r, hdr, hds, rfl, hhead, hmin⟩
    have hbytes := beBytes_beNat hhead
    refine ⟨r, ?_, ?_⟩
    · rw [lengthOctets_long hmin, hbytes, hw, List.cons_append, ← hdr, htail, hds,
        show 128 + (lengthByte.toNat - 128) = lengthByte.toNat by omega, UInt8.ofNat_toNat]
    · rw [lengthOctets_long hmin, hbytes, List.length_cons]
      omega
  · rw [longForm_iff] at hshort
    refine ⟨w, ?_, ?_⟩
    · rw [lengthOctets_short (by omega), hw, UInt8.ofNat_toNat]
      rfl
    · rw [lengthOctets_short (by omega)]
      rfl

/-- `parse_any` never faults, and what it accepts is a complete, minimally encoded element
within the parent. -/
theorem parseAny_safe (hend : parentEnd ≤ raw.length) (hsize : parentEnd < 2 ^ 63) :
    Safe (parseAny raw idx parentEnd) fun element => ∃ content rest,
      Reads raw idx parentEnd element.identifier element.idx element.contentEnd
        content rest := by
  unfold parseAny
  refine Safe.ite (fun _ => safe_code _ _) fun h0 => ?_
  obtain ⟨identifier, hid, hwin0⟩ := window_eq_cons (b := raw) (i := idx) (e := parentEnd)
    (by omega) hend
  rw [rawByte_eq hid, ok_bind, uadd_eq (by omega), ok_bind]
  refine Safe.ite (fun _ => safe_code _ _) fun h1 => ?_
  obtain ⟨lengthByte, hlb, hwin1⟩ := window_eq_cons (b := raw) (i := idx + 1)
    (e := parentEnd) (by omega) hend
  rw [rawByte_eq hlb, ok_bind]
  refine Safe.ite (fun _ => safe_code _ _) fun hform => ?_
  rw [uadd_eq (by omega), ok_bind]
  refine Safe.bind (parseLength_safe hwin1 hend hsize fun h => hform (Or.inl h)) ?_
  rintro ⟨start, length⟩ ⟨r, hr, hstart⟩
  simp only at hr hstart ⊢
  have hpos := length_lengthOctets_pos length
  have hle := le_of_window_append hr (List.ne_nil_of_length_pos hpos)
  rw [usub_eq (by omega), ok_bind]
  refine Safe.ite (fun _ => safe_code _ _) fun hroom => ?_
  rw [uadd_eq (by omega), ok_bind, safe_ok]
  have hrlen : r.length = parentEnd - start := by
    have hwlen := length_window (b := raw) (idx + 1) hend
    rw [hr, List.length_append] at hwlen
    omega
  have htake : (r.take length).length = length := by
    rw [List.length_take]
    omega
  refine ⟨r.take length, r.drop length, ?_, ?_, ?_⟩
  · rw [tlv, htake, List.cons_append, List.append_assoc, List.take_append_drop, hwin0, hr]
  · rw [headerLength, htake]
    simp only
    omega
  · rw [htake]

/-- The long form of a length of at least 128 is read back. -/
theorem parseLongLength_eq {n : ℕ} {r : Bytes} (hn : 128 ≤ n) (hlt : n < 2 ^ 64)
    (hw : window raw idx parentEnd = beBytes n ++ r) (hend : parentEnd < 2 ^ 63) :
    parseLongLength raw idx parentEnd (beBytes n).length =
      .ok (idx + (beBytes n).length, n) := by
  have hne : beBytes n ≠ [] := beBytes_ne_nil (by omega)
  have hle := le_of_window_append hw hne
  have height := length_beBytes_le_eight hlt
  have hhead := beBytes_head_ne_zero n
  have hloop := lengthLoop_eq (beBytes n) idx 0 r hw hend (pow_octets_le height)
  have hvalue : (beBytes n).foldl (fun n b => n * 256 + b.toNat) 0 = n := beNat_beBytes n
  rw [hvalue] at hloop
  unfold parseLongLength
  rw [uadd_eq (by omega), ok_bind, if_neg (by omega), hloop]
  generalize beBytes n = ds at *
  cases ds with
  | nil => exact absurd rfl hne
  | cons d ds =>
    rw [rawByte_of_window hw, ok_bind, if_neg (hhead d rfl), if_neg (by omega), ok_bind,
      if_neg (by simp only; omega)]

/-- The shortest encoding of a length is accepted as that length. -/
theorem parseLength_eq {n : ℕ} {lengthByte : UInt8} {w r : Bytes} (hn : n < 2 ^ 64)
    (hoct : lengthOctets n = lengthByte :: w)
    (hw : window raw idx parentEnd = lengthOctets n ++ r) (hend : parentEnd < 2 ^ 63) :
    lengthByte ≠ derLengthIndefinite ∧ lengthByte ≠ derLengthReserved ∧
      parseLength raw (idx + 1) parentEnd lengthByte =
        .ok (idx + (lengthOctets n).length, n) := by
  rcases Nat.lt_or_ge n 128 with hshort | hlong
  · rw [lengthOctets_short hshort] at hoct ⊢
    obtain ⟨rfl, -⟩ := List.cons.inj hoct
    have hnat : (UInt8.ofNat n).toNat = n := by
      rw [UInt8.toNat_ofNat']
      omega
    have hne : ∀ b : UInt8, 128 ≤ b.toNat → UInt8.ofNat n ≠ b := by
      rintro b hb rfl
      omega
    refine ⟨hne _ (by decide), hne _ (by decide), ?_⟩
    unfold parseLength
    rw [if_neg (by rw [longForm_iff]; omega), hnat]
    rfl
  · rw [hoct, List.cons_append] at hw
    obtain ⟨-, -, htail⟩ := of_window_cons hw
    rw [lengthOctets_long hlong] at hoct ⊢
    obtain ⟨hbyte, rfl⟩ := List.cons.inj hoct
    have hnat := toNat_long_form hn
    rw [hbyte] at hnat
    have height := length_beBytes_le_eight hn
    have hbpos := List.length_pos_iff.mpr (beBytes_ne_nil (n := n) (by omega))
    refine ⟨?_, ?_, ?_⟩
    · rintro rfl
      have h128 : 128 = 128 + (beBytes n).length := hnat
      omega
    · rintro rfl
      have h255 : 255 = 128 + (beBytes n).length := hnat
      omega
    · unfold parseLength
      rw [if_pos (by rw [longForm_iff]; omega), toNat_lengthOctets (by omega), hnat,
        Nat.add_sub_cancel_left, parseLongLength_eq hlong hn htail hend, List.length_cons]
      congr 2
      omega

/-- Where an element stands, `parse_any` accepts it. -/
theorem Reads.parseAny_eq {identifier : UInt8} {start contentEnd : ℕ} {content rest : Bytes}
    (h : Reads raw idx parentEnd identifier start contentEnd content rest)
    (hsize : parentEnd < 2 ^ 63) :
    parseAny raw idx parentEnd = .ok ⟨start, contentEnd, identifier⟩ := by
  have hidx := h.idx_lt
  have hstartle := h.start_le
  have hendle := h.end_le
  have hw := h.window_eq
  have hs := h.start_eq
  have he := h.end_eq
  rw [tlv, List.cons_append, List.append_assoc] at hw
  obtain ⟨-, -, hw1⟩ := of_window_cons hw
  obtain ⟨lengthByte, w, hoct⟩ := List.exists_cons_of_ne_nil
    (List.ne_nil_of_length_pos (length_lengthOctets_pos content.length))
  obtain ⟨hne0, hne1, hlength⟩ := parseLength_eq (by omega) hoct hw1 (by omega)
  have hw1' := hw1
  rw [hoct, List.cons_append] at hw1'
  rw [headerLength] at hs
  unfold parseAny
  rw [if_neg (by omega), rawByte_of_window hw, ok_bind, uadd_eq (by omega), ok_bind,
    if_neg (by omega), rawByte_of_window hw1', ok_bind, if_neg (by simp [hne0, hne1]),
    uadd_eq (by omega), ok_bind, hlength, ok_bind]
  simp only
  rw [usub_eq (by omega), ok_bind, if_neg (by omega), uadd_eq (by omega), ok_bind]
  simp only [Except.ok.injEq, Element.mk.injEq, and_true]
  omega

/-- The header of an element is canonical: `parse_any` accepts the shortest definite-length
encoding of any identifier and content that fits, wherever it is placed, and accepts nothing
else. -/
theorem parseAny_canonical (raw : Bytes) (idx parentEnd : ℕ) (hsize : parentEnd < 2 ^ 63) :
    (∀ (identifier : UInt8) (content before behind : Bytes),
      raw = before ++ tlv identifier content ++ behind → before.length = idx →
      idx + (tlv identifier content).length ≤ parentEnd →
        parseAny raw idx parentEnd =
          .ok ⟨idx + headerLength content, idx + headerLength content + content.length,
            identifier⟩) ∧
    (parentEnd ≤ raw.length → ∀ element, parseAny raw idx parentEnd = .ok element →
      window raw idx element.contentEnd =
          tlv element.identifier (window raw element.idx element.contentEnd) ∧
        idx + 2 ≤ element.idx ∧ element.idx ≤ element.contentEnd ∧
        element.contentEnd ≤ parentEnd) := by
  constructor
  · intro identifier content before behind hraw hbefore hfits
    have hwin : window raw idx parentEnd = tlv identifier content ++
        behind.take (parentEnd - idx - (tlv identifier content).length) := by
      rw [hraw, ← hbefore, window, List.append_assoc, List.drop_left, List.take_append,
        List.take_of_length_le (by omega)]
    exact (Reads.of_window hwin).parseAny_eq hsize
  · intro hend element hok
    obtain ⟨content, rest, h⟩ := (parseAny_safe hend hsize).of_ok hok
    have helement : window raw idx element.contentEnd = tlv element.identifier content := by
      have htlv := (of_window_append h.window_eq).1
      rwa [length_tlv, ← Nat.add_assoc, ← h.start_eq, ← h.end_eq] at htlv
    have hle := h.end_le
    refine ⟨?_, h.idx_lt, h.start_le, by omega⟩
    rw [helement, h.content_eq]

end Parsers

/-- One OCTET STRING of two octets at the cursor, behind an octet and in front of one. -/
theorem parseAny_canonical_octetString :
    parseAny [0xff, 4, 2, 7, 9, 0xff] 1 6 = .ok ⟨3, 5, 4⟩ ∧
      window [0xff, 4, 2, 7, 9, 0xff] 1 5 = tlv 4 (window [0xff, 4, 2, 7, 9, 0xff] 3 5) := by
  have h := parseAny_canonical [0xff, 4, 2, 7, 9, 0xff] 1 6 (by norm_num)
  have hok := h.1 4 [7, 9] [0xff] [0xff] (by decide) rfl (by decide)
  exact ⟨hok, (h.2 (by decide) ⟨3, 5, 4⟩ hok).1⟩

end X509Server
