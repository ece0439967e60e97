import X509Server.Analysis.TrustSpec
import X509Server.Interface.RsaKeys

/-!
# RSA keys

What `rsa_extract` establishes about a key with `CERT_OK`, and what it leaves open: the
leading octets of the modulus, what follows the SEQUENCE of the key, absent parameters and
the parameters of the signature algorithm.
-/

set_option autoImplicit false

namespace X509Server

open Checked ByteWindow Der

/-! ## Extraction -/

/-- What an RSA key has in common with its certificate if `rsa_extract` returns `CERT_OK`. -/
structure Certificate.RsaExtracted (c : Certificate) (pub : PubKey) (modulus exponent rest : Bytes)
    (expSigSize : ℕ) : Prop where
  reads : RsaReads c.encode c.fields pub modulus exponent
  key : c.keyInfo.subjectPublicKey =
    tlv derSequence (tlv derInteger modulus ++ tlv derInteger exponent) ++ rest
  size : rsaSigSize modulus.length = some expSigSize
  parameters : c.keyInfo.algorithm.parameters = [] ∨
    c.keyInfo.algorithm.parameters = [0x05, 0x00]

/-- `CERT_OK` is returned behind the checks only. -/
theorem Certificate.rsaExtracted_of_ok (c : Certificate) (hlen : c.encode.length < 2 ^ 63)
    {env : OpenSsl} {pub pub' : PubKey} {w w' : World}
    (h : rsaExtract env c.encode c.fields pub w = .ok (.certOk, pub', w')) :
    ∃ modulus exponent rest, c.RsaExtracted pub modulus exponent rest pub'.expSigSize := by
  obtain ⟨⟨result, checked⟩, hcheck, md, size, hpub, hcode, hkey⟩ :=
    (rsaCheck_safe c hlen pub).exists_ok
  dsimp only at hpub hcode hkey
  unfold rsaExtract at h
  rw [hcheck, ok_bind] at h
  cases result with
  | inl code =>
    have hok := congrArg Prod.fst (Except.ok.inj h)
    exact absurd hok (hcode code rfl)
  | inr octets =>
    obtain ⟨modulus, exponent⟩ := octets
    obtain ⟨digest, rest, -, -, hsize, hrest, hparams⟩ := hkey modulus exponent rfl
    obtain ⟨pkey, mdCtx, -, hpub', -⟩ :=
      (rsaConstruct_safe env modulus exponent checked w).of_ok h rfl
    have hexp : pub'.expSigSize = size := by
      rw [show pub' = _ from hpub', hpub]
    rw [hexp]
    exact ⟨modulus, exponent, rest, ⟨checked, hcheck⟩, hrest, hsize, hparams⟩

/-! ## The size of the key -/

theorem rsaSigSize_spec {n size : ℕ} (h : rsaSigSize n = some size) :
    n = size + 1 ∧ 2 ≤ size := by
  unfold rsaSigSize at h
  split at h
  · obtain rfl := Option.some.inj h
    omega
  · split at h
    · obtain rfl := Option.some.inj h
      omega
    · cases h

/-- A modulus of one octet more than the signatures has their size exactly if its first
octet is zero and its second is not. -/
theorem modulusSized_iff {modulus : Bytes} {size : ℕ} (hlen : modulus.length = size + 1)
    (hsize : 2 ≤ size) :
    ModulusSized modulus size ↔ modulus[0]? = some 0 ∧ modulus[1]? ≠ some 0 := by
  obtain ⟨a, b, bs, rfl⟩ : ∃ a b bs, modulus = a :: b :: bs := by
    match modulus, hlen with
    | [a], hlen => simp only [List.length_cons, List.length_nil] at hlen; omega
    | a :: b :: bs, _ => exact ⟨a, b, bs, rfl⟩
  simp only [List.length_cons, Nat.add_right_cancel_iff] at hlen
  have hlower : 2 ^ (8 * size - 8) = 256 ^ bs.length := by
    rw [show 8 * size - 8 = 8 * bs.length by omega, pow_mul]
    norm_num
  have hupper : 2 ^ (8 * size) = 256 ^ (b :: bs).length := by
    rw [← hlen, List.length_cons, pow_mul]
    norm_num
  have hzero (x : UInt8) (xs : Bytes) : beNat (0 :: xs) = beNat xs := by
    rw [beNat_cons, UInt8.toNat_zero, zero_mul, zero_add]
  simp only [List.getElem?_cons_zero, List.getElem?_cons_succ, Option.some.injEq, ne_eq]
  constructor
  · rintro ⟨hlo, hhi, -⟩
    rw [hupper, beNat_cons_lt_iff] at hhi
    subst hhi
    refine ⟨rfl, ?_⟩
    intro hb
    rw [hlower, hzero 0] at hlo
    exact absurd ((beNat_cons_lt_iff b bs).mpr hb) (by omega)
  · rintro ⟨rfl, hb⟩
    refine ⟨?_, ?_, ?_⟩
    · rw [hlower, hzero 0]
      by_contra hlt
      exact hb ((beNat_cons_lt_iff b bs).mp (by omega))
    · rw [hupper, beNat_cons_lt_iff]
    · rw [intValue_eq_beNat _ (by decide)]

/-! ## The end of the key -/

/-- The header of the key reaches its end exactly if nothing follows the element. -/
theorem headerReaches_iff {raw content rest : Bytes} {f : X509Fields}
    (hle : f.pubKeyEnd ≤ raw.length) (hraw : raw.length < 2 ^ 63)
    (hkey : window raw f.pubKeyStart f.pubKeyEnd = tlv derSequence content ++ rest) :
    HeaderReaches raw f ↔ rest = [] := by
  have hlt := (of_window_cons (x := derSequence) hkey).1
  have hbehind : window raw (f.pubKeyStart + 1) f.pubKeyEnd =
      lengthOctets content.length ++ (content ++ rest) := by
    rw [← List.append_assoc]
    exact (of_window_cons (x := derSequence) hkey).2.2
  have hlen := congrArg List.length hbehind
  rw [length_window _ hle, List.length_append, List.length_append] at hlen
  constructor
  · rintro ⟨n, ⟨behind, hn⟩, hreach⟩
    obtain ⟨rfl, -⟩ := lengthOctets_append_inj (by omega) (by omega) (hn.trans hbehind)
    rw [← List.length_eq_zero_iff]
    omega
  · rintro rfl
    rw [List.length_nil] at hlen
    exact ⟨content.length, ⟨content ++ [], hbehind.symm⟩, by omega⟩

/-- What follows the two INTEGERs decides whether the field is used up. -/
theorem keyConsumed_iff {raw modulus exponent rest : Bytes} {f : X509Fields}
    (hle : f.pubKeyEnd ≤ raw.length) (hraw : raw.length < 2 ^ 63)
    (hkey : window raw f.pubKeyStart f.pubKeyEnd =
      tlv derSequence (tlv derInteger modulus ++ tlv derInteger exponent) ++ rest) :
    KeyConsumed raw f ↔ HeaderReaches raw f := by
  constructor
  · rintro ⟨modulus', exponent', hconsumed⟩
    have hnil : window raw f.pubKeyStart f.pubKeyEnd =
        tlv derSequence (tlv derInteger modulus' ++ tlv derInteger exponent') ++ [] := by
      rw [List.append_nil]
      exact hconsumed
    exact (headerReaches_iff hle hraw hnil).mpr rfl
  · intro hreaches
    obtain rfl := (headerReaches_iff hle hraw hkey).mp hreaches
    rw [List.append_nil] at hkey
    exact ⟨modulus, exponent, hkey⟩

/-! ## Accepted certificates -/

section Accepted

variable {raw : Bytes} {f₀ f : X509Fields}

/-- An accepted certificate for whose RSA key `rsa_extract` has returned `CERT_OK`. -/
theorem rsaExtracted_of_accepted (hraw : raw.length < 2 ^ 63) (hok : parseX509 raw f₀ = .ok f)
    {env : OpenSsl} {pub pub' : PubKey} {w w' : World}
    (h : rsaExtract env raw f pub w = .ok (.certOk, pub', w')) :
    ∃ (c : Certificate) (modulus exponent rest : Bytes), c.encode = raw ∧ c.fields = f ∧
      c.RsaExtracted pub modulus exponent rest pub'.expSigSize := by
  obtain ⟨c, rfl, rfl⟩ := (parseX509_ok_iff raw f₀ f hraw).mp hok
  obtain ⟨modulus, exponent, rest, hextracted⟩ := c.rsaExtracted_of_ok hraw h
  exact ⟨c, modulus, exponent, rest, rfl, rfl, hextracted⟩

end Accepted

/-! ## Certificates for RSA keys -/

/-- A certificate for a key of 3072 bits with the given identifiers and key octets. -/
def rsaVariant (signature key : AlgorithmIdentifier) (subjectPublicKey : Bytes) : Certificate where
  tbsCertificate := codeSigningTbs epoch epoch signingUsage signature key subjectPublicKey
  signatureValue := List.replicate 384 0

/-- The octets of a key with the exponent 65537. -/
def rsaKeyOctets (modulus : Bytes) : Bytes :=
  tlv derSequence (tlv derInteger modulus ++ tlv derInteger [0x01, 0x00, 0x01])

def rsaNull : AlgorithmIdentifier := ⟨rsaOid, [0x05, 0x00]⟩

def sha256Null : AlgorithmIdentifier := ⟨rsaSha256Oid, [0x05, 0x00]⟩

/-- `parse_x509` accepts the certificate and `rsa_extract` returns `CERT_OK` for it.  The
extraction around it then does so too if the calls of OpenSSL succeed and the signature
verifies. -/
structure RsaAccepted (c : Certificate) : Prop where
  parsed : parseX509 c.encode c.fields = .ok c.fields
  extracted : ∃ pub w, rsaExtract .accepting c.encode c.fields .unwritten .initial =
    .ok (.certOk, pub, w) ∧ pub.expSigSize = 384
  admitted : (extractSelfSignForCodeSign .accepting c.encode c.fields 0 .unwritten .initial).map
    (fun r => r.1) = .ok .certOk

theorem rsaAccepted_of_codes {c : Certificate} (hlen : c.encode.length < 2 ^ 63)
    (hextract : (rsaExtract .accepting c.encode c.fields .unwritten .initial).map
      (fun r => (r.1, r.2.1.expSigSize)) = .ok (.certOk, 384))
    (hadmitted : (extractSelfSignForCodeSign .accepting c.encode c.fields 0 .unwritten
      .initial).map (fun r => r.1) = .ok .certOk) : RsaAccepted c := by
  refine ⟨parseX509_encode c c.fields hlen, ?_, hadmitted⟩
  cases hr : rsaExtract .accepting c.encode c.fields .unwritten .initial with
  | error stop =>
    rw [hr] at hextract
    cases hextract
  | ok r =>
    obtain ⟨code, pub, w⟩ := r
    rw [hr] at hextract
    obtain ⟨rfl, hsize⟩ := Prod.mk.inj (Except.ok.inj hextract)
    exact ⟨pub, w, rfl, hsize⟩

theorem rsaCertificate_rsaAccepted : RsaAccepted (rsaCertificate signingUsage 0) :=
  rsaAccepted_of_codes (by decide +kernel) (by decide +kernel) (by decide +kernel)

/-! ## What holds of the key -/

/-- The modulus `BN_bin2bn` reads is the content of the key's first INTEGER.  It has the
size of the signatures exactly if it starts with one zero octet. -/
theorem rsa_modulus_sized_iff (env : OpenSsl) (raw : Bytes) (f₀ f : X509Fields)
    (hraw : raw.length < 2 ^ 63) (hok : parseX509 raw f₀ = .ok f) (pub pub' : PubKey)
    (w w' : World) (hrsa : rsaExtract env raw f pub w = .ok (.certOk, pub', w')) :
    ∃ modulus exponent rest, RsaReads raw f pub modulus exponent ∧
      window raw f.pubKeyStart f.pubKeyEnd =
        tlv derSequence (tlv derInteger modulus ++ tlv derInteger exponent) ++ rest ∧
      (ModulusSized modulus pub'.expSigSize ↔
        modulus[0]? = some 0 ∧ modulus[1]? ≠ some 0) := by
  obtain ⟨c, modulus, exponent, rest, rfl, rfl, h⟩ := rsaExtracted_of_accepted hraw hok hrsa
  obtain ⟨hlen, hsize⟩ := rsaSigSize_spec h.size
  exact ⟨modulus, exponent, rest, h.reads, c.fieldsShow.key.trans h.key,
    modulusSized_iff hlen hsize⟩

/-- The modulus of 3072 ones. -/
theorem rsa_modulus_sized_iff_ones : ∃ modulus exponent rest,
    RsaReads (rsaCertificate signingUsage 0).encode (rsaCertificate signingUsage 0).fields
      .unwritten modulus exponent ∧
    window (rsaCertificate signingUsage 0).encode (rsaCertificate signingUsage 0).fields.pubKeyStart
        (rsaCertificate signingUsage 0).fields.pubKeyEnd =
      tlv derSequence (tlv derInteger modulus ++ tlv derInteger exponent) ++ rest ∧
    (ModulusSized modulus 384 ↔ modulus[0]? = some 0 ∧ modulus[1]? ≠ some 0) := by
  have hout := rsaCertificate_rsaAccepted
  obtain ⟨pub, w, hextracted, hsize⟩ := hout.extracted
  rw [← hsize]
  exact rsa_modulus_sized_iff .accepting _ _ _ (by decide +kernel) hout.parsed _ pub _ w hextracted

/-- The modulus 15, padded to 385 octets. -/
def paddedKey : Certificate :=
  rsaVariant sha256Null rsaNull (rsaKeyOctets (List.replicate 384 0 ++ [0x0f]))

/-- `rsa_extract` takes it for a key of 3072 bits. -/
theorem paddedKey_accepted : RsaAccepted paddedKey ∧ ∃ modulus exponent,
    RsaReads paddedKey.encode paddedKey.fields .unwritten modulus exponent ∧
      beNat modulus = 15 ∧ ¬ ModulusSized modulus 384 := by
  have hreads : (rsaCheck paddedKey.encode paddedKey.fields .unwritten).map (fun r => r.1) =
      .ok (.inr (List.replicate 384 0 ++ [0x0f], [0x01, 0x00, 0x01])) := by
    decide +kernel
  have hout : RsaAccepted paddedKey :=
    rsaAccepted_of_codes (by decide +kernel) (by decide +kernel) (by decide +kernel)
  refine ⟨hout, List.replicate 384 0 ++ [0x0f], [0x01, 0x00, 0x01], ?_, by decide +kernel, ?_⟩
  · cases hr : rsaCheck paddedKey.encode paddedKey.fields .unwritten with
    | error stop =>
      rw [hr] at hreads
      cases hreads
    | ok r =>
      obtain ⟨result, pub'⟩ := r
      rw [hr] at hreads
      obtain rfl := Except.ok.inj hreads
      exact ⟨pub', hr⟩
  · rw [modulusSized_iff (by decide +kernel) (by decide)]
    rintro ⟨-, hsecond⟩
    exact hsecond (by decide +kernel)

/-- The key field starts with a SEQUENCE of two INTEGERs if `rsa_extract` returns `CERT_OK`,
and is nothing else exactly if the SEQUENCE's length reaches the field's end. -/
theorem rsa_key_consumed_iff (env : OpenSsl) (raw : Bytes) (f₀ f : X509Fields)
    (hraw : raw.length < 2 ^ 63) (hok : parseX509 raw f₀ = .ok f) (pub pub' : PubKey)
    (w w' : World) (hrsa : rsaExtract env raw f pub w = .ok (.certOk, pub', w')) :
    (∃ modulus exponent rest, window raw f.pubKeyStart f.pubKeyEnd =
      tlv derSequence (tlv derInteger modulus ++ tlv derInteger exponent) ++ rest) ∧
    (KeyConsumed raw f ↔ HeaderReaches raw f) := by
  obtain ⟨c, modulus, exponent, rest, rfl, rfl, h⟩ := rsaExtracted_of_accepted hraw hok hrsa
  have hkey := c.fieldsShow.key.trans h.key
  exact ⟨⟨modulus, exponent, rest, hkey⟩,
    keyConsumed_iff c.fields_within.key.2 hraw hkey⟩

/-- A key that fills its field. -/
theorem rsa_key_consumed_iff_ones :
    KeyConsumed (rsaCertificate signingUsage 0).encode (rsaCertificate signingUsage 0).fields ↔
      HeaderReaches (rsaCertificate signingUsage 0).encode
        (rsaCertificate signingUsage 0).fields := by
  have hout := rsaCertificate_rsaAccepted
  obtain ⟨pub, w, hextracted, -⟩ := hout.extracted
  exact (rsa_key_consumed_iff .accepting _ _ _ (by decide +kernel) hout.parsed _ pub _ w
    hextracted).2

/-- A key with one octet behind its SEQUENCE. -/
def trailingKey : Certificate :=
  rsaVariant sha256Null rsaNull (rsaKeyOctets (0 :: List.replicate 384 0xff) ++ [0x00])

theorem trailingKey_accepted :
    RsaAccepted trailingKey ∧ ¬ KeyConsumed trailingKey.encode trailingKey.fields := by
  have hout : RsaAccepted trailingKey :=
    rsaAccepted_of_codes (by decide +kernel) (by decide +kernel) (by decide +kernel)
  have hlen : trailingKey.encode.length < 2 ^ 63 := by decide +kernel
  have hle : trailingKey.fields.pubKeyEnd ≤ trailingKey.encode.length :=
    trailingKey.fields_within.key.2
  have hkey : window trailingKey.encode trailingKey.fields.pubKeyStart
      trailingKey.fields.pubKeyEnd =
        tlv derSequence (tlv derInteger (0 :: List.replicate 384 0xff) ++
          tlv derInteger [0x01, 0x00, 0x01]) ++ [0x00] := trailingKey.fieldsShow.key
  refine ⟨hout, ?_⟩
  intro hconsumed
  have hreaches := (keyConsumed_iff hle hlen hkey).mp hconsumed
  cases (headerReaches_iff hle hlen hkey).mp hreaches

/-- For a key that `pub_key_extract` took for an RSA key, the parameters are `NULL` on both
sides exactly if the key has parameters and the signature algorithm has the same ones. -/
theorem rsa_null_parameters_iff (env : OpenSsl) (raw : Bytes) (f₀ f : X509Fields)
    (hraw : raw.length < 2 ^ 63) (hok : parseX509 raw f₀ = .ok f)
    (hoid : window raw f.pubKeyOidStart f.pubKeyOidEnd = rsaOid) (pub pub' : PubKey)
    (w w' : World) (hrsa : rsaExtract env raw f pub w = .ok (.certOk, pub', w')) :
    NullParameters raw f ↔ f.pubKeyOidEnd ≠ f.pubKeyIdEnd ∧
      window raw f.sigOidEnd f.sigIdEnd = window raw f.pubKeyOidEnd f.pubKeyIdEnd := by
  obtain ⟨c, modulus, exponent, rest, rfl, rfl, h⟩ := rsaExtracted_of_accepted hraw hok hrsa
  rw [c.fieldsShow.keyOid] at hoid
  rw [c.window_sigParameters, c.window_keyParameters, ne_eq, c.pubKeyOidEnd_eq_iff]
  constructor
  · rintro ⟨-, hkey, hsig⟩
    rw [c.window_keyParameters] at hkey
    rw [c.window_sigParameters] at hsig
    rw [hkey, hsig]
    exact ⟨by decide, rfl⟩
  · rintro ⟨hpresent, hsame⟩
    have hnull := h.parameters.resolve_left hpresent
    refine ⟨?_, c.window_keyParameters.trans hnull, ?_⟩
    · rw [c.fieldsShow.keyId, AlgorithmIdentifier.encode, AlgorithmIdentifier.content, hoid, hnull]
    · rw [c.window_sigParameters, hsame, hnull]

/-- A certificate with `NULL` on both sides. -/
theorem rsa_null_parameters_iff_ones :
    NullParameters (rsaCertificate signingUsage 0).encode (rsaCertificate signingUsage 0).fields ↔
      (rsaCertificate signingUsage 0).fields.pubKeyOidEnd ≠
          (rsaCertificate signingUsage 0).fields.pubKeyIdEnd ∧
        window (rsaCertificate signingUsage 0).encode
            (rsaCertificate signingUsage 0).fields.sigOidEnd
            (rsaCertificate signingUsage 0).fields.sigIdEnd =
          window (rsaCertificate signingUsage 0).encode
            (rsaCertificate signingUsage 0).fields.pubKeyOidEnd
            (rsaCertificate signingUsage 0).fields.pubKeyIdEnd := by
  have hout := rsaCertificate_rsaAccepted
  obtain ⟨pub, w, hextracted, -⟩ := hout.extracted
  exact rsa_null_parameters_iff .accepting _ _ _ (by decide +kernel) hout.parsed
    (by decide +kernel) _ pub _ w hextracted

/-- A key without parameters, and one whose signature algorithm has a BOOLEAN. -/
def absentParameters : Certificate :=
  rsaVariant sha256Null ⟨rsaOid, []⟩ (rsaKeyOctets (0 :: List.replicate 384 0xff))

def foreignParameters : Certificate :=
  rsaVariant ⟨rsaSha256Oid, [0x01, 0x01, 0xff]⟩ rsaNull
    (rsaKeyOctets (0 :: List.replicate 384 0xff))

/-- `rsa_extract` returns `CERT_OK` for both. -/
theorem parameters_unchecked :
    (RsaAccepted absentParameters ∧
      ¬ NullParameters absentParameters.encode absentParameters.fields) ∧
    RsaAccepted foreignParameters ∧
      ¬ NullParameters foreignParameters.encode foreignParameters.fields := by
  refine ⟨⟨rsaAccepted_of_codes (by decide +kernel) (by decide +kernel) (by decide +kernel), ?_⟩,
    rsaAccepted_of_codes (by decide +kernel) (by decide +kernel) (by decide +kernel), ?_⟩
  · intro h
    have hkey := h.keyParameters
    rw [absentParameters.window_keyParameters] at hkey
    cases hkey
  · intro h
    have hsig := h.sigParameters
    rw [foreignParameters.window_sigParameters] at hsig
    cases hsig

end X509Server
