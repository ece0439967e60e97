import X509Server.Analysis.TrustSpec

/-!
# Key purposes

The flags of the extended key usage against the purposes they are named after.  The code
compares with the prefix of id-kp and then looks at the last octet, so each flag belongs to
one purpose of that arc.  For `KEY_USAGE_FLAG_ANY_EXTENDED` this is 1.3.6.1.5.5.7.3.0, which
is not anyExtendedKeyUsage.
-/

set_option autoImplicit false

namespace X509Server

open Checked Der

/-! ## One purpose -/

/-- The bit of a flag in the table, and the octet that sets it. -/
structure PurposeBit (flag : UInt32) (bit : ℕ) (n : UInt8) : Prop where
  high : 16 ≤ bit
  flag_eq : flag.toNat = 2 ^ bit
  octet : ∀ last, (purposeFlag last).toNat.testBit bit = true ↔ last = n

/-- Only the first entry of the table is not the purpose whose octet the code tests. -/
theorem purposeBit_of_mem {flag : UInt32} {purpose : Bytes}
    (h : (flag, purpose) ∈ purposeTable) : ∃ bit n, PurposeBit flag bit n ∧
      (purpose = idKp n ∨ purpose = anyExtendedKeyUsageOid ∧ n = 0) := by
  have hoctet (bit : ℕ) (n : UInt8) (htest : ∀ last : Fin 256,
      (purposeFlag (UInt8.ofNat last.val)).toNat.testBit bit = true ↔
        UInt8.ofNat last.val = n) :
      ∀ last, (purposeFlag last).toNat.testBit bit = true ↔ last = n :=
    forall_octet htest
  simp only [purposeTable, List.mem_cons, Prod.mk.injEq, List.not_mem_nil, or_false] at h
  rcases h with ⟨rfl, rfl⟩ | ⟨rfl, rfl⟩ | ⟨rfl, rfl⟩ | ⟨rfl, rfl⟩ | ⟨rfl, rfl⟩ | ⟨rfl, rfl⟩ |
    ⟨rfl, rfl⟩
  · exact ⟨16, 0, ⟨by decide, rfl, hoctet 16 0 (by decide +kernel)⟩, Or.inr ⟨rfl, rfl⟩⟩
  · exact ⟨17, 1, ⟨by decide, rfl, hoctet 17 1 (by decide +kernel)⟩, Or.inl rfl⟩
  · exact ⟨18, 2, ⟨by decide, rfl, hoctet 18 2 (by decide +kernel)⟩, Or.inl rfl⟩
  · exact ⟨19, 3, ⟨by decide, rfl, hoctet 19 3 (by decide +kernel)⟩, Or.inl rfl⟩
  · exact ⟨20, 4, ⟨by decide, rfl, hoctet 20 4 (by decide +kernel)⟩, Or.inl rfl⟩
  · exact ⟨21, 8, ⟨by decide, rfl, hoctet 21 8 (by decide +kernel)⟩, Or.inl rfl⟩
  · exact ⟨22, 9, ⟨by decide, rfl, hoctet 22 9 (by decide +kernel)⟩, Or.inl rfl⟩

/-! ## The word of a certificate -/

theorem Extension.hasExtKeyUsage_apply (x : Extension) (start : ℕ) (f : X509Fields)
    (h : x.oid ≠ extKeyUsageOid) : (x.apply start f).hasExtKeyUsage = f.hasExtKeyUsage := by
  exact apply_component X509Fields.hasExtKeyUsage extKeyUsageOid
    (fun _ _ _ _ => rfl) (fun _ _ _ _ => rfl)
    (fun _ _ _ _ => rfl) (fun _ _ _ => rfl) (fun hne => absurd rfl hne) x start f h

namespace Certificate

variable (c : Certificate)

theorem hasExtKeyUsage_iff : c.fields.hasExtKeyUsage = true ↔
    ∃ critical purposes, .extKeyUsage critical purposes ∈ c.extensions := by
  rcases c.tbsCertificate.fields_component c.tbsStart Extension.hasExtKeyUsage_apply c.sigStart
    c.encode.length with ⟨hnone, heq⟩ | ⟨x, hx, hoid, place, g, -, -, -, -, heq⟩
  · apply iff_of_false
    · intro h
      exact absurd (heq.symm.trans h) (by simp [TbsCertificate.baseFields])
    · rintro ⟨critical, purposes, hmem⟩
      exact hnone _ hmem rfl
  · obtain ⟨critical, purposes, rfl⟩ := Extension.eq_of_oid_extKeyUsage hoid
    exact iff_of_true heq ⟨critical, purposes, hx⟩

/-- A bit of the high half is set exactly if the purpose it belongs to is listed. -/
theorem purposeBit_iff {flag : UInt32} {bit : ℕ} {n : UInt8} (h : PurposeBit flag bit n) :
    c.fields.keyUsageFlags &&& flag ≠ 0 ↔ c.Lists (idKp n) := by
  have hhigh := h.high
  rw [and_flag_ne_zero_iff h.flag_eq]
  rcases c.tbsCertificate.fields_component c.tbsStart Extension.purposeBits_apply c.sigStart
    c.encode.length with ⟨hnone, heq⟩ | ⟨x, hx, hoid, place, g, hg, -, -, -, heq⟩
  · have hbit := congrFun heq bit
    simp only [X509Fields.purposeBits, hhigh, decide_true, Bool.true_and] at hbit
    apply iff_of_false
    · intro htrue
      exact absurd (hbit.symm.trans htrue) (by simp [TbsCertificate.baseFields])
    · rintro ⟨critical, purposes, hmem, -⟩
      exact hnone _ hmem rfl
  · obtain ⟨critical, purposes, rfl⟩ := Extension.eq_of_oid_extKeyUsage hoid
    have hbit := congrFun heq bit
    have hbase := congrFun hg bit
    simp only [X509Fields.purposeBits, hhigh, decide_true, Bool.true_and, Extension.apply,
      purposeFlags_testBit_eq] at hbit hbase
    have hzero : g.keyUsageFlags.toNat.testBit bit = false :=
      hbase.trans (Nat.zero_testBit bit)
    rw [hzero, Bool.false_or] at hbit
    have hany : c.fields.keyUsageFlags.toNat.testBit bit = true ↔ idKp n ∈ purposes := by
      refine (Bool.eq_iff_iff.mp hbit).trans ?_
      rw [List.any_eq_true]
      constructor
      · rintro ⟨purpose, hmem, hflag⟩
        rw [← (purposeFlagOf_testBit_iff h.octet purpose).mp hflag]
        exact hmem
      · intro hmem
        exact ⟨_, hmem, (purposeFlagOf_testBit_iff h.octet _).mpr rfl⟩
    rw [hany]
    constructor
    · intro hmem
      exact ⟨critical, purposes, hx, hmem⟩
    · rintro ⟨critical', purposes', hx', hmem⟩
      -- the certificate has one extension with this OID
      have hsame := List.inj_on_of_nodup_map c.tbsCertificate.nodup_oids hx hx' rfl
      cases hsame
      exact hmem

end Certificate

/-! ## Decoding -/

/-- `parse_ext_key_usage` leaves the flags of the key usage alone. -/
theorem parseExtKeyUsage_low {raw : Bytes} {idx extnEnd : ℕ} {g g' : X509Fields}
    (hend : extnEnd ≤ raw.length) (hraw : raw.length < 2 ^ 63)
    (hok : parseExtKeyUsage raw idx extnEnd g = .ok g') {bit : ℕ} (hbit : bit < 16) :
    g'.keyUsageFlags.toNat.testBit bit = g.keyUsageFlags.toNat.testBit bit := by
  obtain ⟨purposes, -, happly⟩ := (parseExtKeyUsage_safe hend hraw).of_ok hok
  rw [happly false]
  exact purposeFlags_testBit purposes g.keyUsageFlags hbit

/-- The decoding is right exactly if the one flag with a wrong purpose is. -/
theorem Certificate.purposesDecoded_iff (c : Certificate) (hlen : c.encode.length < 2 ^ 63) :
    PurposesDecoded c.encode c.fields c ↔
      (c.Lists anyExtendedKeyUsageOid ↔ c.Lists (idKp 0)) := by
  constructor
  · intro h
    have hmem : (keyUsageFlagAnyExtended, anyExtendedKeyUsageOid) ∈ purposeTable := by decide
    have hany : PurposeBit keyUsageFlagAnyExtended 16 0 :=
      ⟨by decide, rfl, forall_octet (by decide +kernel)⟩
    rw [← h.flags _ _ hmem, c.purposeBit_iff hany]
  · intro h
    refine ⟨c.hasExtKeyUsage_iff, ?_, fun idx extnEnd g g' hend hok bit hbit =>
      parseExtKeyUsage_low hend hlen hok hbit⟩
    intro flag purpose hmem
    obtain ⟨bit, n, hflag, rfl | ⟨rfl, rfl⟩⟩ := purposeBit_of_mem hmem
    · exact c.purposeBit_iff hflag
    · exact (c.purposeBit_iff hflag).trans h.symm

/-- The extended key usage of an accepted certificate is decoded right exactly if it lists
anyExtendedKeyUsage together with 1.3.6.1.5.5.7.3.0, or neither of them. -/
theorem accepted_purposesDecoded_iff (raw : Bytes) (f₀ f : X509Fields)
    (hraw : raw.length < 2 ^ 63) (hok : parseX509 raw f₀ = .ok f) :
    (∃ c : Certificate, c.encode = raw) ∧ ∀ c : Certificate, c.encode = raw →
      (PurposesDecoded raw f c ↔ (c.Lists anyExtendedKeyUsageOid ↔ c.Lists (idKp 0))) := by
  refine ⟨(parseX509_accepts_iff raw f₀ hraw).mp ⟨f, hok⟩, ?_⟩
  rintro c rfl
  rw [parseX509_encode c f₀ hraw] at hok
  obtain rfl := Except.ok.inj hok
  exact c.purposesDecoded_iff hraw

/-- A certificate for code signing alone. -/
theorem accepted_purposesDecoded_iff_codeSigning :
    (∃ c : Certificate, c.encode = (ed25519Certificate epoch signingUsage 0).encode) ∧
      ∀ c : Certificate, c.encode = (ed25519Certificate epoch signingUsage 0).encode →
        (PurposesDecoded (ed25519Certificate epoch signingUsage 0).encode
          (ed25519Certificate epoch signingUsage 0).fields c ↔
          (c.Lists anyExtendedKeyUsageOid ↔ c.Lists (idKp 0))) :=
  accepted_purposesDecoded_iff _ (ed25519Certificate epoch signingUsage 0).fields _
    (by decide +kernel) (by decide +kernel)

/-- A certificate whose extended key usage is anyExtendedKeyUsage. -/
def anyPurposeCertificate : Certificate where
  tbsCertificate :=
    { codeSigningTbs epoch epoch signingUsage ed25519Id ed25519Id (List.replicate 32 7) with
      extensions := some
        { extensions := [.extKeyUsage false [anyExtendedKeyUsageOid]]
          length_le := by simp [maxExtn]
          nodup := by simp } }
  signatureValue := List.replicate 64 0

/-- It is accepted without the flag. -/
theorem anyPurpose_unflagged :
    ∃ f, parseX509 anyPurposeCertificate.encode anyPurposeCertificate.fields = .ok f ∧
      anyPurposeCertificate.Lists anyExtendedKeyUsageOid ∧
      f.keyUsageFlags &&& keyUsageFlagAnyExtended = 0 ∧
      ¬ PurposesDecoded anyPurposeCertificate.encode f anyPurposeCertificate := by
  have hlists : anyPurposeCertificate.Lists anyExtendedKeyUsageOid :=
    ⟨false, [anyExtendedKeyUsageOid], by
      simp [anyPurposeCertificate, Certificate.extensions, TbsCertificate.extensionList,
        extensionMembers], by simp⟩
  have hzero : anyPurposeCertificate.fields.keyUsageFlags &&& keyUsageFlagAnyExtended = 0 := by
    decide +kernel
  refine ⟨_, parseX509_encode _ _ (by decide +kernel), hlists, hzero, fun h => ?_⟩
  exact (h.flags keyUsageFlagAnyExtended _ (by decide)).mpr hlists hzero

end X509Server
