import Mathlib.Data.Nat.Digits.Lemmas
import Mathlib.Tactic.Common
import X509Server.Library.PrefixCode

/-!
# Definite-length encodings

An element of the distinguished encoding rules is an identifier octet, the length of its
content in the shortest form (`lengthOctets`), and the content.  `tlv` writes one element.
No element is a proper prefix of another one (`tlv_append_inj`), so a sequence of elements
can be read back in only one way, and elements are a prefix code whatever unambiguous
encoding their content is in (`tlv_isPrefixCode`).

Lengths are written in base 256, most significant octet first; the arithmetic is that of
`Nat.digits`.
-/

set_option autoImplicit false

namespace Der

/-- Big-endian base-256 digits, without leading zeros. -/
def beBytes (n : ℕ) : List UInt8 := ((Nat.digits 256 n).reverse).map UInt8.ofNat

/-- The number a big-endian octet string stands for. -/
def beNat (bs : List UInt8) : ℕ := bs.foldl (fun n b => n * 256 + b.toNat) 0

/-- The shortest definite form of a length: one octet below 128, otherwise the number of
octets with the top bit set, followed by the octets. -/
def lengthOctets (n : ℕ) : List UInt8 :=
  if n < 128 then [UInt8.ofNat n]
  else UInt8.ofNat (128 + (beBytes n).length) :: beBytes n

/-- One element: identifier, length, content. -/
def tlv (identifier : UInt8) (content : List UInt8) : List UInt8 :=
  identifier :: (lengthOctets content.length ++ content)

/-- The number of octets in front of the content. -/
def headerLength (content : List UInt8) : ℕ := 1 + (lengthOctets content.length).length

/-! ## Big-endian numbers -/

theorem foldl_beNat (bs : List UInt8) (n : ℕ) :
    bs.foldl (fun n b => n * 256 + b.toNat) n = n * 256 ^ bs.length + beNat bs := by
  induction bs generalizing n with
  | nil => simp [beNat]
  | cons b bs ih =>
    simp only [List.foldl_cons, List.length_cons, beNat]
    rw [ih, ih (0 * 256 + b.toNat)]
    ring

@[simp] theorem beNat_nil : beNat [] = 0 := rfl

theorem beNat_cons (b : UInt8) (bs : List UInt8) :
    beNat (b :: bs) = b.toNat * 256 ^ bs.length + beNat bs := by
  simp only [beNat, List.foldl_cons]
  rw [foldl_beNat]
  simp [beNat]

theorem beNat_lt (bs : List UInt8) : beNat bs < 256 ^ bs.length := by
  induction bs with
  | nil => simp
  | cons b bs ih =>
    have hb := b.toNat_lt
    rw [beNat_cons, List.length_cons, pow_succ]
    nlinarith [Nat.zero_le (256 ^ bs.length)]

/-- A number fits into one octet less exactly if its first octet is zero. -/
theorem beNat_cons_lt_iff (b : UInt8) (bs : List UInt8) :
    beNat (b :: bs) < 256 ^ bs.length ↔ b = 0 := by
  rw [beNat_cons]
  constructor
  · intro hlt
    by_contra hne
    have hpos : 1 ≤ b.toNat := by
      rw [Nat.one_le_iff_ne_zero]
      intro hzero
      exact hne (UInt8.toNat_inj.mp hzero)
    have hmul := Nat.mul_le_mul_right (256 ^ bs.length) hpos
    omega
  · rintro rfl
    have := beNat_lt bs
    simpa using this

/-- The value of the content octets of an INTEGER, in two's complement. -/
def intValue : List UInt8 → ℤ
  | [] => 0
  | b :: bs =>
    if 128 ≤ b.toNat then (beNat (b :: bs) : ℤ) - 256 ^ (bs.length + 1) else beNat (b :: bs)

/-- Octets that do not start with a sign bit stand for the same number in both readings. -/
theorem intValue_eq_beNat {b : UInt8} (bs : List UInt8) (h : b.toNat < 128) :
    intValue (b :: bs) = beNat (b :: bs) := by
  rw [intValue, if_neg (by omega)]

/-- Octet by octet, `beNat` is the value of the reversed digit list. -/
theorem beNat_eq_ofDigits (bs : List UInt8) :
    beNat bs = Nat.ofDigits 256 (bs.reverse.map UInt8.toNat) := by
  induction bs with
  | nil => rfl
  | cons b bs ih =>
    rw [beNat_cons, ih, List.reverse_cons, List.map_append, Nat.ofDigits_append]
    simp
    ring

/-- Writing a number and reading it back. -/
theorem beNat_beBytes (n : ℕ) : beNat (beBytes n) = n := by
  rw [beNat_eq_ofDigits, beBytes, ← List.map_reverse, List.reverse_reverse, List.map_map]
  have hid : (Nat.digits 256 n).map (UInt8.toNat ∘ UInt8.ofNat) = Nat.digits 256 n := by
    apply List.map_congr_left (g := id) _ |>.trans (List.map_id _)
    intro d hd
    have hlt := Nat.digits_lt_base (by norm_num : 1 < 256) hd
    simp [Nat.mod_eq_of_lt hlt]
  rw [hid, Nat.ofDigits_digits]

/-- Reading an octet string without leading zero and writing it back. -/
theorem beBytes_beNat {bs : List UInt8} (h : ∀ b ∈ bs.head?, b ≠ 0) :
    beBytes (beNat bs) = bs := by
  have hlt : ∀ d ∈ bs.reverse.map UInt8.toNat, d < 256 := by
    intro d hd
    obtain ⟨b, -, rfl⟩ := List.mem_map.mp hd
    exact b.toNat_lt
  have hlast : ∀ hne : bs.reverse.map UInt8.toNat ≠ [],
      (bs.reverse.map UInt8.toNat).getLast hne ≠ 0 := by
    intro hne
    cases bs with
    | nil => simp at hne
    | cons b bs =>
      have hb : b ≠ 0 := h b rfl
      intro h0
      apply hb
      apply UInt8.toNat_inj.mp
      simpa using h0
  rw [beNat_eq_ofDigits, beBytes, Nat.digits_ofDigits 256 (by norm_num) _ hlt hlast,
    ← List.map_reverse, List.reverse_reverse, List.map_map]
  have hcomp : UInt8.ofNat ∘ UInt8.toNat = id := by
    funext b
    simp
  rw [hcomp, List.map_id]

theorem beBytes_injective {m n : ℕ} (h : beBytes m = beBytes n) : m = n := by
  rw [← beNat_beBytes m, h, beNat_beBytes]

/-- A written number does not start with a zero octet. -/
theorem beBytes_head_ne_zero (n : ℕ) : ∀ b ∈ (beBytes n).head?, b ≠ 0 := by
  intro b hb
  by_cases hn : n = 0
  · subst hn
    simp [beBytes] at hb
  have hne : Nat.digits 256 n ≠ [] := Nat.digits_ne_nil_iff_ne_zero.mpr hn
  have hlast := Nat.getLast_digit_ne_zero 256 hn
  have hmem := Nat.digits_lt_base (by norm_num : 1 < 256) (List.getLast_mem hne)
  simp only [beBytes, List.head?_map, List.head?_reverse, Option.mem_def,
    List.getLast?_eq_some_getLast hne, Option.map_some, Option.some.injEq] at hb
  subst hb
  intro h0
  apply hlast
  have := congrArg UInt8.toNat h0
  simpa [Nat.mod_eq_of_lt hmem] using this

theorem beBytes_ne_nil {n : ℕ} (hn : n ≠ 0) : beBytes n ≠ [] := by
  simp [beBytes, Nat.digits_ne_nil_iff_ne_zero.mpr hn]

/-- `k` octets suffice below `256 ^ k`. -/
theorem length_beBytes_le {n k : ℕ} (h : n < 256 ^ k) : (beBytes n).length ≤ k := by
  simp only [beBytes, List.length_map, List.length_reverse]
  exact (Nat.digits_length_le_iff (by norm_num) n).mpr h

/-! ## Lengths and elements -/

theorem length_beBytes_le_eight {n : ℕ} (h : n < 2 ^ 64) : (beBytes n).length ≤ 8 :=
  length_beBytes_le (by norm_num; omega)

theorem lengthOctets_short {n : ℕ} (h : n < 128) : lengthOctets n = [UInt8.ofNat n] :=
  if_pos h

theorem lengthOctets_long {n : ℕ} (h : 128 ≤ n) :
    lengthOctets n = UInt8.ofNat (128 + (beBytes n).length) :: beBytes n :=
  if_neg (by omega)

/-- The first octet of a long form carries the number of the octets that follow. -/
theorem toNat_long_form {n : ℕ} (h : n < 2 ^ 64) :
    (UInt8.ofNat (128 + (beBytes n).length)).toNat = 128 + (beBytes n).length := by
  have := length_beBytes_le_eight h
  rw [UInt8.toNat_ofNat']
  omega

theorem length_lengthOctets_pos (n : ℕ) : 0 < (lengthOctets n).length := by
  unfold lengthOctets
  split <;> simp

/-- A length is read back from its octets alone. -/
theorem lengthOctets_append_inj {m n : ℕ} {s t : List UInt8} (hm : m < 2 ^ 64)
    (hn : n < 2 ^ 64) (h : lengthOctets m ++ s = lengthOctets n ++ t) : m = n ∧ s = t := by
  rcases Nat.lt_or_ge m 128 with hm' | hm' <;> rcases Nat.lt_or_ge n 128 with hn' | hn'
  · rw [lengthOctets_short hm', lengthOctets_short hn'] at h
    obtain ⟨h1, h2⟩ := List.cons.inj h
    have h3 := congrArg UInt8.toNat h1
    simp only [UInt8.toNat_ofNat'] at h3
    exact ⟨by omega, h2⟩
  · rw [lengthOctets_short hm', lengthOctets_long hn'] at h
    have h3 := congrArg UInt8.toNat (List.cons.inj h).1
    rw [toNat_long_form hn, UInt8.toNat_ofNat'] at h3
    omega
  · rw [lengthOctets_long hm', lengthOctets_short hn'] at h
    have h3 := congrArg UInt8.toNat (List.cons.inj h).1
    rw [toNat_long_form hm, UInt8.toNat_ofNat'] at h3
    omega
  · rw [lengthOctets_long hm', lengthOctets_long hn'] at h
    obtain ⟨h1, h2⟩ := List.cons.inj h
    have h3 := congrArg UInt8.toNat h1
    rw [toNat_long_form hm, toNat_long_form hn] at h3
    obtain ⟨h4, h5⟩ := List.append_inj h2 (by omega)
    exact ⟨beBytes_injective h4, h5⟩

theorem length_tlv (identifier : UInt8) (content : List UInt8) :
    (tlv identifier content).length = headerLength content + content.length := by
  simp only [tlv, headerLength, List.length_cons, List.length_append]
  omega

theorem two_le_headerLength (content : List UInt8) : 2 ≤ headerLength content := by
  have := length_lengthOctets_pos content.length
  simp only [headerLength]
  omega

theorem tlv_ne_nil (identifier : UInt8) (content : List UInt8) :
    tlv identifier content ≠ [] := by
  simp [tlv]

/-- An element at the front of an octet string is determined by the string. -/
theorem tlv_append_inj {i j : UInt8} {c d s t : List UInt8} (hc : c.length < 2 ^ 64)
    (hd : d.length < 2 ^ 64) (h : tlv i c ++ s = tlv j d ++ t) : i = j ∧ c = d ∧ s = t := by
  simp only [tlv, List.cons_append, List.append_assoc] at h
  obtain ⟨hi, h⟩ := List.cons.inj h
  obtain ⟨hlen, h⟩ := lengthOctets_append_inj hc hd h
  obtain ⟨hcd, hst⟩ := List.append_inj h hlen
  exact ⟨hi, hcd, hst⟩

/-! ## Elements as a prefix code -/

section PrefixCode

open PrefixCode

variable {α : Type} {f : α → List UInt8}

theorem length_lt_of_tlv {identifier : UInt8} {content : List UInt8} {n : ℕ}
    (h : (tlv identifier content).length < n) : content.length < n := by
  rw [length_tlv] at h
  omega

/-- Elements of one identifier. -/
theorem tlv_isPrefixCode (identifier : UInt8) (hf : Unambiguous (2 ^ 64) f) :
    IsPrefixCode (2 ^ 64) fun a => tlv identifier (f a) := by
  intro a b s t ha hb h
  obtain ⟨-, hcontent, hst⟩ := tlv_append_inj (length_lt_of_tlv ha) (length_lt_of_tlv hb) h
  exact ⟨hf (length_lt_of_tlv ha) hcontent, hst⟩

/-- Elements of any identifier. -/
theorem tlv_isPrefixCode_any :
    IsPrefixCode (2 ^ 64) fun p : UInt8 × List UInt8 => tlv p.1 p.2 := by
  rintro ⟨i, c⟩ ⟨j, d⟩ s t ha hb h
  obtain ⟨rfl, rfl, hst⟩ := tlv_append_inj (length_lt_of_tlv ha) (length_lt_of_tlv hb) h
  exact ⟨rfl, hst⟩

end PrefixCode

end Der
