import X509Server.Analysis.TrustSpec
import X509Server.Interface.Constraints

/-!
# The basic constraints of an accepted certificate

`key_cert_sign` and `path_len_constraint` are written by one extension, of which an
accepted list has at most one, so the shift loop starts from the default 0
(`Certificate.constraint_cases`).  Four octets without a sign bit then fit into the word
below its largest value.
-/

set_option autoImplicit false

namespace X509Server

open Checked ByteWindow Der

/-! ## The shift loop -/

/-- A step of the shift loop on a value of at most three octets. -/
theorem toNat_shift_or {v : UInt32} (b : UInt8) (h : v.toNat < 2 ^ 24) :
    (v <<< 8 ||| b.toUInt32).toNat = v.toNat * 256 + b.toNat := by
  have hb := b.toNat_lt
  have hshift : (v <<< 8).toNat = v.toNat <<< 8 := by
    rw [UInt32.toNat_shiftLeft]
    change v.toNat <<< 8 % 2 ^ 32 = _
    apply Nat.mod_eq_of_lt
    rw [Nat.shiftLeft_eq]
    omega
  rw [UInt32.toNat_or, UInt8.toNat_toUInt32, hshift, ← Nat.shiftLeft_add_eq_or_of_lt (by omega),
    Nat.shiftLeft_eq]

/-- At most four octets are shifted together to the number they stand for. -/
theorem toNat_shifted (bs : Bytes) (h : bs.length ≤ 4) :
    (bs.foldl (fun (v : UInt32) b => v <<< 8 ||| b.toUInt32) 0).toNat = beNat bs := by
  induction bs using List.reverseRecOn with
  | nil => rfl
  | append_singleton bs b ih =>
    rw [List.length_append, List.length_singleton] at h
    have hbs := ih (by omega)
    have hlt : beNat bs < 2 ^ 24 := by
      calc beNat bs < 256 ^ bs.length := beNat_lt bs
        _ ≤ 256 ^ 3 := Nat.pow_le_pow_right (by norm_num) (by omega)
    rw [List.foldl_append, List.foldl_cons, List.foldl_nil, toNat_shift_or b (by omega), hbs]
    simp [beNat]

namespace PathLength

variable (p : PathLength)

/-- The value of the octets, below the sign bit of four octets. -/
theorem beNat_lt : beNat p.octets < 2 ^ 31 := by
  obtain ⟨octets, pos, le_four, nonneg⟩ := p
  cases octets with
  | nil => exact absurd pos (by simp)
  | cons b bs =>
    have hb := nonneg b rfl
    have hbs := Der.beNat_lt bs
    rw [List.length_cons] at le_four
    have hpow : 256 ^ bs.length ≤ 256 ^ 3 := Nat.pow_le_pow_right (by norm_num) (by omega)
    dsimp only
    rw [beNat_cons]
    nlinarith

/-- Without sign bit the INTEGER is the number its octets stand for. -/
theorem intValue_eq : intValue p.octets = beNat p.octets := by
  obtain ⟨octets, pos, le_four, nonneg⟩ := p
  cases octets with
  | nil => exact absurd pos (by simp)
  | cons b bs => exact intValue_eq_beNat bs (nonneg b rfl)

theorem lossless : p.Lossless := by
  intro before b behind hsplit
  have hlen := congrArg List.length hsplit
  have hfour := p.le_four
  rw [List.length_append, List.length_cons] at hlen
  have hlt : beNat before < 2 ^ 24 := by
    calc beNat before < 256 ^ before.length := Der.beNat_lt before
      _ ≤ 256 ^ 3 := Nat.pow_le_pow_right (by norm_num) (by omega)
  apply toNat_shift_or
  rw [toNat_shifted before (by omega)]
  exact hlt

end PathLength

/-! ## The two fields -/

def X509Fields.constraint (f : X509Fields) : Bool × UInt32 :=
  (f.keyCertSign, f.pathLenConstraint)

theorem Extension.constraint_apply (x : Extension) (start : ℕ) (f : X509Fields)
    (h : x.oid ≠ basicConstraintOid) : (x.apply start f).constraint = f.constraint := by
  exact apply_component X509Fields.constraint basicConstraintOid (fun hne => absurd rfl hne)
    (fun _ _ _ _ => rfl) (fun _ _ _ _ => rfl) (fun _ _ _ => rfl) (fun _ _ _ => rfl) x start f h

namespace Certificate

variable (c : Certificate)

/-- A certificate has one extension with basic constraints at most. -/
theorem basicConstraints_unique {body body' : BasicConstraints}
    (h : .basicConstraints body ∈ c.extensions) (h' : .basicConstraints body' ∈ c.extensions) :
    body = body' := by
  have hsame := List.inj_on_of_nodup_map c.tbsCertificate.nodup_oids h h' rfl
  cases hsame
  rfl

/-- The two fields: the defaults, or what the basic constraints say. -/
theorem constraint_cases :
    ((∀ body, .basicConstraints body ∉ c.extensions) ∧ c.fields.constraint = (false, 0)) ∨
      (.basicConstraints .notCa ∈ c.extensions ∧ c.fields.constraint = (false, 0)) ∨
      ∃ o, .basicConstraints (.ca o) ∈ c.extensions ∧
        c.fields.constraint = (true, pathLenValue o 0) := by
  rcases c.tbsCertificate.fields_component c.tbsStart Extension.constraint_apply c.sigStart
    c.encode.length with ⟨hnone, heq⟩ | ⟨x, hx, hoid, place, g, hg, -, -, -, heq⟩
  · left
    exact ⟨fun body hbody => hnone _ hbody rfl, heq⟩
  right
  have hzero : g.pathLenConstraint = 0 := congrArg Prod.snd hg
  obtain ⟨body, rfl⟩ := Extension.eq_of_oid_basicConstraint hoid
  cases body with
  | notCa =>
    left
    refine ⟨hx, heq.trans ?_⟩
    rw [← hzero]
    rfl
  | ca o =>
    right
    refine ⟨o, hx, heq.trans ?_⟩
    rw [← hzero]
    cases o <;> rfl

theorem constraintsDecoded : ConstraintsDecoded c.fields c := by
  rcases c.constraint_cases with ⟨hnone, hfields⟩ | ⟨hnot, hfields⟩ | ⟨o, ho, hfields⟩
  · have hsign : c.fields.keyCertSign = false := congrArg Prod.fst hfields
    refine ⟨?_, fun p hp => absurd hp (hnone _), fun hp => absurd hp (hnone _),
      fun _ => congrArg Prod.snd hfields⟩
    constructor
    · intro h
      rw [hsign] at h
      cases h
    · rintro ⟨pathLen, hmem⟩
      exact absurd hmem (hnone _)
  · have hsign : c.fields.keyCertSign = false := congrArg Prod.fst hfields
    have hother : ∀ pathLen, .basicConstraints (.ca pathLen) ∉ c.extensions := by
      intro pathLen hmem
      cases c.basicConstraints_unique hnot hmem
    refine ⟨?_, fun p hp => absurd hp (hother _), fun hp => absurd hp (hother _),
      fun _ => congrArg Prod.snd hfields⟩
    constructor
    · intro h
      rw [hsign] at h
      cases h
    · rintro ⟨pathLen, hmem⟩
      exact absurd hmem (hother _)
  · have hvalue : c.fields.pathLenConstraint = pathLenValue o 0 := congrArg Prod.snd hfields
    refine ⟨⟨fun _ => ⟨o, ho⟩, fun _ => congrArg Prod.fst hfields⟩, ?_, ?_,
      fun hnone => absurd ho (hnone o)⟩
    · intro p hp
      cases c.basicConstraints_unique ho hp
      have hnat : c.fields.pathLenConstraint.toNat = beNat p.octets := by
        rw [hvalue]
        exact toNat_shifted p.octets p.le_four
      refine ⟨by rw [hnat, p.intValue_eq], ?_, p.lossless⟩
      intro hmax
      have hlt := p.beNat_lt
      rw [← hnat, hmax] at hlt
      exact absurd hlt (by decide)
    · intro hp
      cases c.basicConstraints_unique ho hp
      exact hvalue

end Certificate

/-- The basic constraints of an accepted certificate are decoded: whether the key may sign
certificates, and the path length, from which no bit is lost. -/
theorem accepted_constraintsDecoded (raw : Bytes) (f₀ f : X509Fields)
    (hraw : raw.length < 2 ^ 63) (hok : parseX509 raw f₀ = .ok f) :
    (∃ c : Certificate, c.encode = raw) ∧
      ∀ c : Certificate, c.encode = raw → ConstraintsDecoded f c := by
  refine ⟨(parseX509_accepts_iff raw f₀ hraw).mp ⟨f, hok⟩, ?_⟩
  rintro c rfl
  rw [parseX509_encode c f₀ hraw] at hok
  obtain rfl := Except.ok.inj hok
  exact c.constraintsDecoded

/-- A certificate with basic constraints alone. -/
def constrainedCertificate (p : PathLength) : Certificate where
  tbsCertificate :=
    { codeSigningTbs epoch epoch signingUsage ed25519Id ed25519Id (List.replicate 32 7) with
      extensions := some
        { extensions := [.basicConstraints (.ca (some p))]
          length_le := by simp [maxExtn]
          nodup := by simp } }
  signatureValue := List.replicate 64 0

/-- The path length 300. -/
def longPath : PathLength where
  octets := [0x01, 0x2c]
  pos := by decide
  le_four := by decide
  nonneg := by simp

theorem accepted_constraintsDecoded_longPath :
    (∃ c : Certificate, c.encode = (constrainedCertificate longPath).encode) ∧
      ∀ c : Certificate, c.encode = (constrainedCertificate longPath).encode →
        ConstraintsDecoded (constrainedCertificate longPath).fields c :=
  accepted_constraintsDecoded _ (constrainedCertificate longPath).fields _ (by decide +kernel)
    (by decide +kernel)

end X509Server
