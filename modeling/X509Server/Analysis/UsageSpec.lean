import Mathlib.Data.Nat.Bitwise
import X509Server.Analysis.SignedSpec
import X509Server.Model.Crypto

/-!
# Key usage

What `key_usage_flags` says about the keyUsage extension.  The flag of a named bit is
compared with the bit itself through `Nat.testBit` on the word.  The extended key usage
shares the word and stays above bit 15 (`Extension.usageBits_apply`), so the low half is
written by one extension only.

The second octet is shifted by one where its place in the word is eight bits up.  The
decoding is therefore right exactly for certificates in which the misplaced bits change
nothing (`Certificate.keyUsageDecoded_iff`).
-/

set_option autoImplicit false

namespace X509Server

/-! ## Statement -/

/-- The flags of the named bits 0 to 8 (x509.h:48-92). -/
def namedBitFlags : List UInt32 :=
  [keyUsageFlagSign, keyUsageFlagNonrep, keyUsageFlagKeyEnc, keyUsageFlagDataEnc,
   keyUsageFlagKeyAgreement, keyUsageFlagKeyCertSign, keyUsageFlagKeyCrlSign,
   keyUsageFlagKeyEncOnly, keyUsageFlagKeyDecOnly]

/-- The certificate has a keyUsage extension that asserts the bit. -/
def Certificate.Asserts (c : Certificate) (bit : ℕ) : Prop :=
  ∃ critical body, Extension.keyUsage critical body ∈ c.tbsCertificate.extensionList ∧
    body.asserts bit = true

/-- The flags are those of the asserted bits, and the usage test of the extraction is
passed only with digitalSignature and keyCertSign. -/
structure KeyUsageDecoded (f : X509Fields) (c : Certificate) : Prop where
  flags : ∀ bit flag, namedBitFlags[bit]? = some flag →
    (f.keyUsageFlags &&& flag ≠ 0 ↔ c.Asserts bit)
  admitted : usageAdmitted f = true → c.Asserts 0 ∧ c.Asserts 5

/-! ## Bits of the word -/

/-- The place of a named bit in the word. -/
def namedBitPlace (bit : ℕ) : ℕ := if bit = 8 then 15 else 7 - bit

theorem toNat_namedBitFlags {bit : ℕ} {flag : UInt32} (h : namedBitFlags[bit]? = some flag) :
    bit < 9 ∧ flag.toNat = 2 ^ namedBitPlace bit := by
  have hlt : bit < 9 := (List.getElem?_eq_some_iff.mp h).1
  have htable : ∀ b : Fin 9, (namedBitFlags[b.val]?).map UInt32.toNat =
      some (2 ^ namedBitPlace b.val) := by decide
  have hflag := htable ⟨bit, hlt⟩
  rw [h] at hflag
  exact ⟨hlt, Option.some.inj hflag⟩

/-- A flag with one bit is set exactly if the word has that bit. -/
theorem and_flag_ne_zero_iff {w flag : UInt32} {k : ℕ} (h : flag.toNat = 2 ^ k) :
    w &&& flag ≠ 0 ↔ w.toNat.testBit k = true := by
  have hand : (w &&& flag).toNat = (w.toNat.testBit k).toNat * 2 ^ k := by
    rw [UInt32.toNat_and, h, Nat.and_two_pow]
  have hpos : 0 < 2 ^ k := Nat.two_pow_pos k
  rw [ne_eq, ← UInt32.toNat_inj, hand]
  cases w.toNat.testBit k with
  | false => simp
  | true => simp

theorem purposeFlag_testBit (last : UInt8) {j : ℕ} (hj : j < 16) :
    (purposeFlag last).toNat.testBit j = false := by
  have hlow : (purposeFlag last).toNat % 2 ^ 16 = 0 := by
    revert last
    apply forall_octet
    decide +kernel
  have hbit := Nat.testBit_mod_two_pow (purposeFlag last).toNat 16 j
  rw [hlow, Nat.zero_testBit] at hbit
  simpa [hj] using hbit.symm

/-- Extended key usage leaves the low half of the word alone. -/
theorem purposeFlags_testBit (purposes : List Bytes) (flags : UInt32) {j : ℕ} (hj : j < 16) :
    (purposeFlags purposes flags).toNat.testBit j = flags.toNat.testBit j := by
  unfold purposeFlags
  induction purposes generalizing flags with
  | nil => rfl
  | cons p ps ih =>
    rw [List.foldl_cons, ih, UInt32.toNat_or, Nat.testBit_or]
    have hp : (purposeFlagOf p).toNat.testBit j = false := by
      unfold purposeFlagOf
      split
      · exact purposeFlag_testBit _ hj
      · exact Nat.zero_testBit j
    rw [hp, Bool.or_false]

/-- The word of a key usage: the first octet, and the second one place up. -/
theorem KeyUsage.flags_testBit (k : KeyUsage) (j : ℕ) :
    k.flags.toNat.testBit j = (k.first.toNat.testBit j ||
      (decide (1 ≤ j) && (k.second.getD 0).toNat.testBit (j - 1))) := by
  unfold flags
  cases k.second with
  | none => simp
  | some second =>
    have hfit : second.toNat <<< 1 < 2 ^ 32 := by
      have := second.toNat_lt
      rw [Nat.shiftLeft_eq]
      omega
    rw [UInt32.toNat_or, Nat.testBit_or, UInt32.toNat_shiftLeft, UInt8.toNat_toUInt32,
      UInt8.toNat_toUInt32, show (1 : UInt32).toNat % 32 = 1 from rfl, Nat.mod_eq_of_lt hfit,
      Nat.testBit_shiftLeft]
    rfl

theorem toNat_testBit_of_le (b : UInt8) {j : ℕ} (hj : 8 ≤ j) : b.toNat.testBit j = false :=
  Nat.testBit_lt_two_pow (lt_of_lt_of_le b.toNat_lt (Nat.pow_le_pow_right (by norm_num) hj))

theorem KeyUsage.asserts_first (k : KeyUsage) {bit : ℕ} (h : bit < 8) :
    k.asserts bit = k.first.toNat.testBit (7 - bit) := by
  rw [asserts, Nat.div_eq_of_lt h, Nat.mod_eq_of_lt h]
  rfl

theorem KeyUsage.asserts_second (k : KeyUsage) {bit : ℕ} (h : bit < 8) :
    k.asserts (8 + bit) = (k.second.getD 0).toNat.testBit (7 - bit) := by
  rw [asserts, show (8 + bit) / 8 = 1 by omega, show (8 + bit) % 8 = bit by omega, octets]
  cases k.second <;> rfl

/-- The word at the place of a named bit: bit 8 is lost, and bits 0 to 6 are mixed with
the bits 9 to 15. -/
theorem KeyUsage.flags_namedBit (k : KeyUsage) {bit : ℕ} (h : bit < 9) :
    k.flags.toNat.testBit (namedBitPlace bit) =
      if bit = 8 then false else (k.asserts bit || (decide (bit < 7) && k.asserts (bit + 9))) := by
  rw [flags_testBit]
  unfold namedBitPlace
  split
  · rw [toNat_testBit_of_le _ (by norm_num), toNat_testBit_of_le _ (by norm_num)]
    rfl
  · rw [k.asserts_first (by omega)]
    congr 1
    by_cases hlt : bit < 7
    · rw [show bit + 9 = 8 + (bit + 1) by omega, k.asserts_second (by omega)]
      have h1 : 1 ≤ 7 - bit := by omega
      simp only [h1, hlt, decide_true, Bool.true_and]
      rfl
    · have h1 : ¬ 1 ≤ 7 - bit := by omega
      simp only [h1, hlt, decide_false, Bool.false_and]

/-! ## The word of a certificate -/

/-- The low half of the word. -/
def X509Fields.usageBits (f : X509Fields) (j : ℕ) : Bool :=
  decide (j < 16) && f.keyUsageFlags.toNat.testBit j

theorem Extension.usageBits_apply (x : Extension) (start : ℕ) (f : X509Fields)
    (h : x.oid ≠ keyUsageOid) : (x.apply start f).usageBits = f.usageBits := by
  refine apply_component X509Fields.usageBits keyUsageOid (fun _ _ _ _ => rfl)
    (fun _ _ _ _ => rfl) (fun _ _ _ _ => rfl) (fun hne => absurd rfl hne) ?_ x start f h
  intro _ f purposes
  funext j
  unfold X509Fields.usageBits
  by_cases hj : j < 16
  · rw [purposeFlags_testBit purposes f.keyUsageFlags hj]
  · simp only [hj, decide_false, Bool.false_and]

theorem Extension.eq_of_oid_keyUsage {x : Extension} (h : x.oid = keyUsageOid) :
    ∃ critical body, x = .keyUsage critical body := by
  cases x with
  | keyUsage critical body => exact ⟨critical, body, rfl⟩
  | unrecognized oid value unsupported =>
    exact absurd (by rw [show oid = keyUsageOid from h]; decide) unsupported
  | _ => exact absurd h (by simp only [oid]; decide)

/-- With its keyUsage extension, if there is one, the flags of a certificate are those of
the extension. -/
theorem Certificate.usage_cases (c : Certificate) :
    ((∀ critical body, .keyUsage critical body ∉ c.tbsCertificate.extensionList) ∧
        ∀ j < 16, c.fields.keyUsageFlags.toNat.testBit j = false) ∨
      ∃ body : KeyUsage, (∀ bit, c.Asserts bit ↔ body.asserts bit = true) ∧
        ∀ j < 16, c.fields.keyUsageFlags.toNat.testBit j = body.flags.toNat.testBit j := by
  rcases c.tbsCertificate.fields_component c.tbsStart Extension.usageBits_apply c.sigStart
    c.encode.length with ⟨hnone, heq⟩ | ⟨x, hx, hoid, place, g, hg, -, -, -, heq⟩
  · left
    refine ⟨fun critical body hmem => hnone _ hmem rfl, fun j hj => ?_⟩
    have hbit := congrFun heq j
    simp only [X509Fields.usageBits, hj, decide_true, Bool.true_and] at hbit
    exact hbit.trans (Nat.zero_testBit j)
  · right
    obtain ⟨critical, body, rfl⟩ := Extension.eq_of_oid_keyUsage hoid
    refine ⟨body, fun bit => ⟨?_, fun h => ⟨critical, body, hx, h⟩⟩, fun j hj => ?_⟩
    · rintro ⟨critical', body', hmem, h⟩
      have hsame := List.inj_on_of_nodup_map c.tbsCertificate.nodup_oids hx hmem rfl
      cases hsame
      exact h
    · have hbit := congrFun heq j
      have hzero := congrFun hg j
      simp only [X509Fields.usageBits, hj, decide_true, Bool.true_and] at hbit hzero
      have hbase : g.keyUsageFlags.toNat.testBit j = false :=
        hzero.trans (Nat.zero_testBit j)
      refine hbit.trans ?_
      rw [Extension.apply, UInt32.toNat_or, Nat.testBit_or, hbase, Bool.false_or]

/-- The flag of a named bit in the word of an accepted certificate. -/
theorem Certificate.flag_iff (c : Certificate) {bit : ℕ} {flag : UInt32}
    (h : namedBitFlags[bit]? = some flag) :
    c.fields.keyUsageFlags &&& flag ≠ 0 ↔
      bit ≠ 8 ∧ (c.Asserts bit ∨ bit < 7 ∧ c.Asserts (bit + 9)) := by
  obtain ⟨hlt, hflag⟩ := toNat_namedBitFlags h
  have hplace : namedBitPlace bit < 16 := by
    unfold namedBitPlace
    split <;> omega
  rw [and_flag_ne_zero_iff hflag]
  rcases c.usage_cases with ⟨hnone, hbits⟩ | ⟨body, hasserts, hbits⟩
  · have habsent : ∀ b, ¬ c.Asserts b := fun b ⟨critical, body, hmem, _⟩ =>
      hnone critical body hmem
    rw [hbits _ hplace]
    simp [habsent]
  · rw [hbits _ hplace, body.flags_namedBit hlt, hasserts, hasserts]
    split
    · simp_all
    · simp_all

/-- The usage test asks for the two signing flags. -/
theorem usageAdmitted_flags {f : X509Fields} (h : usageAdmitted f = true) :
    f.keyUsageFlags &&& keyUsageFlagSign ≠ 0 ∧
      f.keyUsageFlags &&& keyUsageFlagKeyCertSign ≠ 0 := by
  simp only [usageAdmitted, Bool.and_eq_true, decide_eq_true_eq] at h
  obtain ⟨-, hmask⟩ := h
  have hsign : f.keyUsageFlags &&& keyUsageFlagSign = usageMask &&& keyUsageFlagSign := by
    rw [← hmask, UInt32.and_assoc]
    rfl
  have hcert : f.keyUsageFlags &&& keyUsageFlagKeyCertSign =
      usageMask &&& keyUsageFlagKeyCertSign := by
    rw [← hmask, UInt32.and_assoc]
    rfl
  rw [hsign, hcert]
  decide

/-- The decoding of a certificate is right exactly if the certificate does not assert bit 8
(decipherOnly), and asserts none of the bits 9 to 15, which have no name, without the bit
nine places before it. -/
theorem Certificate.keyUsageDecoded_iff (c : Certificate) :
    KeyUsageDecoded c.fields c ↔
      ¬ c.Asserts 8 ∧ ∀ bit < 7, c.Asserts (bit + 9) → c.Asserts bit := by
  constructor
  · rintro ⟨hflags, -⟩
    refine ⟨fun h8 => ?_, fun bit hbit hhigh => ?_⟩
    · have hflag : namedBitFlags[8]? = some _ := rfl
      have hset := (hflags 8 _ hflag).mpr h8
      exact ((c.flag_iff hflag).mp hset).1 rfl
    · obtain ⟨flag, hflag⟩ : ∃ flag, namedBitFlags[bit]? = some flag :=
        ⟨_, List.getElem?_eq_getElem (show bit < namedBitFlags.length by
          simp only [namedBitFlags, List.length_cons, List.length_nil]; omega)⟩
      exact (hflags bit flag hflag).mp
        ((c.flag_iff hflag).mpr ⟨by omega, Or.inr ⟨hbit, hhigh⟩⟩)
  · rintro ⟨h8, hhigh⟩
    have hflags : ∀ bit flag, namedBitFlags[bit]? = some flag →
        (c.fields.keyUsageFlags &&& flag ≠ 0 ↔ c.Asserts bit) := by
      intro bit flag hflag
      rw [c.flag_iff hflag]
      constructor
      · rintro ⟨-, h | ⟨hbit, h⟩⟩
        · exact h
        · exact hhigh bit hbit h
      · intro h
        exact ⟨fun h' => h8 (h' ▸ h), Or.inl h⟩
    refine ⟨hflags, fun hadmitted => ?_⟩
    obtain ⟨hsign, hcert⟩ := usageAdmitted_flags hadmitted
    exact ⟨(hflags 0 _ rfl).mp hsign, (hflags 5 _ rfl).mp hcert⟩

/-- The octets `parse_x509` accepts are those of a certificate, and the key usage is decoded
right exactly under the condition above. -/
theorem accepted_keyUsageDecoded_iff (raw : Bytes) (f₀ f : X509Fields)
    (hraw : raw.length < 2 ^ 63) (hok : parseX509 raw f₀ = .ok f) :
    (∃ c : Certificate, c.encode = raw) ∧ ∀ c : Certificate, c.encode = raw →
      (KeyUsageDecoded f c ↔
        ¬ c.Asserts 8 ∧ ∀ bit < 7, c.Asserts (bit + 9) → c.Asserts bit) := by
  refine ⟨(parseX509_accepts_iff raw f₀ hraw).mp ⟨f, hok⟩, ?_⟩
  rintro c rfl
  rw [parseX509_encode c f₀ hraw] at hok
  obtain rfl := Except.ok.inj hok
  exact c.keyUsageDecoded_iff

theorem accepted_keyUsageDecoded_iff_signingUsage :
    (∃ c : Certificate, c.encode = (ed25519Certificate epoch signingUsage 0).encode) ∧
      ∀ c : Certificate, c.encode = (ed25519Certificate epoch signingUsage 0).encode →
        (KeyUsageDecoded (ed25519Certificate epoch signingUsage 0).fields c ↔
          ¬ c.Asserts 8 ∧ ∀ bit < 7, c.Asserts (bit + 9) → c.Asserts bit) :=
  accepted_keyUsageDecoded_iff _ (ed25519Certificate epoch signingUsage 0).fields _
    (by decide +kernel) (by decide +kernel)

/-- The bits 9 and 14, which have no name. -/
def unnamedUsage : KeyUsage where
  unused := 1
  first := 0
  second := some 0x42
  unused_lt := by decide
  last_bit := by decide

/-- A certificate that asserts the bits 9 and 14 alone passes the usage test of the
extraction. -/
theorem unnamedUsage_admitted :
    ∃ f, parseX509 (ed25519Certificate epoch unnamedUsage 0).encode
        (ed25519Certificate epoch signingUsage 0).fields = .ok f ∧
      usageAdmitted f = true ∧ ¬ (ed25519Certificate epoch unnamedUsage 0).Asserts 0 ∧
      ¬ (ed25519Certificate epoch unnamedUsage 0).Asserts 5 ∧
      ¬ KeyUsageDecoded f (ed25519Certificate epoch unnamedUsage 0) := by
  have hnone : ∀ bit < 9, ¬ (ed25519Certificate epoch unnamedUsage 0).Asserts bit := by
    rintro bit hbit ⟨critical, body, hmem, hassert⟩
    obtain ⟨-, rfl⟩ : critical = true ∧ body = unnamedUsage := by
      simpa [ed25519Certificate, codeSigningTbs, codeSigningExtensions,
        TbsCertificate.extensionList, extensionMembers] using hmem
    revert hassert
    revert bit
    decide
  have hadmitted : usageAdmitted (ed25519Certificate epoch unnamedUsage 0).fields = true := by
    decide +kernel
  refine ⟨_, parseX509_encode _ _ (by decide +kernel), hadmitted, hnone 0 (by decide),
    hnone 5 (by decide), fun h => hnone 0 (by decide) (h.admitted hadmitted).1⟩

end X509Server
