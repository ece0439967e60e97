import X509Server.Analysis.CertificateSpec

/-!
# No residue of an earlier parse

`parse_x509` is given a structure with arbitrary contents.  Two runs on the same octets are
followed side by side (`Related`): up to the extensions the contents are not read, the
assignments in front of them and `assign_default_extensions` overwrite every field but the
signature's range, and no handler reads that.  So the two runs go through structures that
differ in the signature's range at most, until `parse_signature` assigns it.
-/

set_option autoImplicit false

namespace X509Server

open Checked ByteWindow

/-! ## Handlers -/

/-- `b` is `a` with the signature range `[s, e)`. -/
def Resigned (s e : ℕ) (a b : X509Fields) : Prop := b = a.withSignature s e

section Handlers

variable (raw : Bytes) (idx extnEnd : ℕ) (f : X509Fields) (s e : ℕ)

theorem parseBasicConstraint_resigned :
    Related (Resigned s e) (parseBasicConstraint raw idx extnEnd f)
      (parseBasicConstraint raw idx extnEnd (f.withSignature s e)) := by
  unfold parseBasicConstraint
  apply Related.bind (related_self _)
  rintro ⟨idx, constraintEnd⟩ _ rfl
  apply Related.bind (related_self _)
  rintro ⟨idx, keyCertSign⟩ _ rfl
  cases keyCertSign with
  | true =>
    apply Related.bind (related_self (parsePathLen raw idx constraintEnd f.pathLenConstraint))
    rintro ⟨idx, pathLen⟩ _ rfl
    apply Related.ite Iff.rfl
    · intro _
      rfl
    · intro _
      rfl
  | false =>
    apply Related.ite Iff.rfl
    · intro _
      rfl
    · intro _
      rfl

theorem parseAkid_resigned :
    Related (Resigned s e) (parseAkid raw idx extnEnd f)
      (parseAkid raw idx extnEnd (f.withSignature s e)) := by
  unfold parseAkid
  apply Related.bind (related_self _)
  rintro ⟨idx, akidSeqEnd⟩ _ rfl
  apply Related.ite Iff.rfl
  · intro _
    rfl
  intro _
  apply Related.bind (related_self _)
  rintro ⟨idx, akidEnd⟩ _ rfl
  apply Related.bind (related_self _)
  rintro idx _ rfl
  apply Related.bind (related_self _)
  rintro idx _ rfl
  apply Related.ite Iff.rfl
  · intro _
    rfl
  · intro _
    rfl

theorem parseSkid_resigned :
    Related (Resigned s e) (parseSkid raw idx extnEnd f)
      (parseSkid raw idx extnEnd (f.withSignature s e)) := by
  unfold parseSkid
  apply Related.bind (related_self _)
  rintro ⟨idx, skidEnd⟩ _ rfl
  apply Related.ite Iff.rfl
  · intro _
    rfl
  · intro _
    rfl

theorem parseKeyUsage_resigned :
    Related (Resigned s e) (parseKeyUsage raw idx extnEnd f)
      (parseKeyUsage raw idx extnEnd (f.withSignature s e)) := by
  unfold parseKeyUsage
  apply Related.bind (related_self _)
  rintro ⟨idx, usageEnd⟩ _ rfl
  apply Related.bind (related_self _)
  rintro size _ rfl
  apply Related.ite Iff.rfl
  · intro _
    rfl
  intro _
  apply Related.ite Iff.rfl
  · intro _
    rfl
  intro _
  apply Related.bind (related_self _)
  rintro unused _ rfl
  apply Related.ite Iff.rfl
  · intro _
    rfl
  intro _
  apply Related.bind (related_self _)
  rintro lastIdx _ rfl
  apply Related.bind (related_self _)
  rintro last _ rfl
  apply Related.ite Iff.rfl
  · intro _
    rfl
  intro _
  apply Related.bind (related_self _)
  rintro firstIdx _ rfl
  apply Related.bind (related_self _)
  rintro first _ rfl
  apply Related.bind (related_self _)
  rintro secondIdx _ rfl
  apply Related.ite Iff.rfl
  · intro _
    apply Related.bind (related_self _)
    rintro second _ rfl
    rfl
  · intro _
    rfl

theorem parseExtKeyUsage_resigned :
    Related (Resigned s e) (parseExtKeyUsage raw idx extnEnd f)
      (parseExtKeyUsage raw idx extnEnd (f.withSignature s e)) := by
  unfold parseExtKeyUsage
  apply Related.bind (related_self _)
  rintro ⟨idx, usageEnd⟩ _ rfl
  apply Related.ite Iff.rfl
  · intro _
    rfl
  intro _
  apply Related.bind (related_self _)
  rintro ⟨idx, flags⟩ _ rfl
  apply Related.bind (related_self _)
  rintro _ _ rfl
  rfl

/-- No handler of the table reads the signature's range. -/
theorem supportedExtns_resigned (extn : SupportedExtn) (h : extn ∈ supportedExtns) :
    Related (Resigned s e) (extn.parseExtn raw idx extnEnd f)
      (extn.parseExtn raw idx extnEnd (f.withSignature s e)) := by
  simp only [supportedExtns, List.mem_cons, List.not_mem_nil, or_false] at h
  rcases h with rfl | rfl | rfl | rfl | rfl
  · exact parseBasicConstraint_resigned raw idx extnEnd f s e
  · exact parseAkid_resigned raw idx extnEnd f s e
  · exact parseSkid_resigned raw idx extnEnd f s e
  · exact parseKeyUsage_resigned raw idx extnEnd f s e
  · exact parseExtKeyUsage_resigned raw idx extnEnd f s e

end Handlers

/-! ## The extensions loop -/

section Extensions

variable (raw : Bytes) (s e : ℕ)

theorem dispatchExtn_resigned (header : ExtnHeader) (oidSize : ℕ) (f : X509Fields)
    (extns : List SupportedExtn) (hextns : ∀ extn ∈ extns, extn ∈ supportedExtns) :
    Related (Resigned s e) (dispatchExtn raw header oidSize f extns)
      (dispatchExtn raw header oidSize (f.withSignature s e) extns) := by
  induction extns with
  | nil =>
    unfold dispatchExtn
    apply Related.ite Iff.rfl
    · intro _
      rfl
    · intro _
      rfl
  | cons extn extns ih =>
    unfold dispatchExtn
    apply Related.bind (related_self _)
    rintro found _ rfl
    apply Related.ite Iff.rfl
    · intro _
      apply Related.ite Iff.rfl
      · intro _
        rfl
      · intro _
        exact supportedExtns_resigned raw _ _ f s e extn (hextns extn (by simp))
    · intro _
      exact ih fun x hx => hextns x (by simp [hx])

/-- The loop keeps two structures alike that differ in the signature's range. -/
theorem extensionLoop_resigned (extensionsEnd fuel idx : ℕ) (seen : List (ℕ × ℕ))
    (f : X509Fields) :
    Related (fun p q => p.1 = q.1 ∧ Resigned s e p.2 q.2)
      (extensionLoop raw extensionsEnd fuel idx seen f)
      (extensionLoop raw extensionsEnd fuel idx seen (f.withSignature s e)) := by
  induction fuel generalizing idx seen f with
  | zero => rfl
  | succ fuel ih =>
    unfold extensionLoop
    apply Related.ite Iff.rfl
    · intro _
      apply Related.ite Iff.rfl
      · intro _
        rfl
      intro _
      apply Related.bind (related_self _)
      rintro header _ rfl
      apply Related.bind (related_self _)
      rintro oidSize _ rfl
      apply Related.bind (related_self _)
      rintro _ _ rfl
      apply Related.bind (related_self _)
      rintro seen _ rfl
      apply Related.bind (dispatchExtn_resigned raw s e header oidSize f _ fun _ h => h)
      rintro f' _ rfl
      exact ih header.extnEnd seen f'
    · intro _
      exact ⟨rfl, rfl⟩

/-- Behind the defaults of the extensions, the signature's range is what is left of the
contents before the call. -/
theorem parseExtensions_resigned (idx tbsCertEnd : ℕ) (f g : X509Fields)
    (h : assignDefaultExtensions g = (assignDefaultExtensions f).withSignature s e) :
    Related (fun p q => p.1 = q.1 ∧ Resigned s e p.2 q.2)
      (parseExtensions raw idx tbsCertEnd f) (parseExtensions raw idx tbsCertEnd g) := by
  unfold parseExtensions
  apply Related.bind (related_self _)
  rintro ⟨idx, explicit3End⟩ _ rfl
  dsimp only
  rw [h]
  apply Related.ite Iff.rfl
  · intro _
    apply Related.bind (related_self _)
    rintro ⟨idx, extensionsEnd⟩ _ rfl
    apply Related.ite Iff.rfl
    · intro _
      rfl
    intro _
    apply Related.bind (extensionLoop_resigned raw s e extensionsEnd _ idx [] _)
    rintro ⟨idx, f'⟩ ⟨_, _⟩ ⟨rfl, rfl⟩
    apply Related.bind (related_self _)
    rintro _ _ rfl
    exact ⟨rfl, rfl⟩
  · intro _
    exact ⟨rfl, rfl⟩

end Extensions

/-! ## The certificate -/

/-- Up to the extensions the cursors are the same, and only the signature's range is kept. -/
theorem parseTbsHead_resigned (raw : Bytes) (idx certEnd : ℕ) (f g : X509Fields) :
    Related (fun p q => p.1 = q.1 ∧ p.2.1 = q.2.1 ∧ assignDefaultExtensions q.2.2 =
        (assignDefaultExtensions p.2.2).withSignature g.sigStart g.sigEnd)
      (parseTbsHead raw idx certEnd f) (parseTbsHead raw idx certEnd g) := by
  unfold parseTbsHead
  apply Related.bind (related_self _)
  rintro ⟨idx', tbsCertEnd⟩ _ rfl
  apply Related.bind (related_self _)
  rintro idx' _ rfl
  apply Related.bind (related_self _)
  rintro ⟨certSerialStart, certSerialEnd⟩ _ rfl
  apply Related.bind (related_self _)
  rintro sigId _ rfl
  apply Related.bind (related_self _)
  rintro idx' _ rfl
  apply Related.bind (related_self _)
  rintro ⟨idx', notBefore, notAfter⟩ _ rfl
  apply Related.bind (related_self _)
  rintro idx' _ rfl
  apply Related.bind (related_self _)
  rintro ⟨pubKeyId, pubKeyStart, pubKeyEnd⟩ _ rfl
  apply Related.bind (related_self _)
  rintro idx' _ rfl
  apply Related.bind (related_self _)
  rintro idx' _ rfl
  exact ⟨rfl, rfl, rfl⟩

theorem parseTbsCertificate_resigned (raw : Bytes) (idx certEnd : ℕ) (f g : X509Fields) :
    Related (fun p q => p.1 = q.1 ∧ Resigned g.sigStart g.sigEnd p.2 q.2)
      (parseTbsCertificate raw idx certEnd f) (parseTbsCertificate raw idx certEnd g) := by
  unfold parseTbsCertificate
  apply Related.bind (parseTbsHead_resigned raw idx certEnd f g)
  rintro ⟨idx', tbsCertEnd, f'⟩ ⟨_, _, g'⟩ ⟨rfl, rfl, hfields⟩
  apply Related.bind (parseExtensions_resigned raw g.sigStart g.sigEnd _ _ _ _ hfields)
  rintro ⟨idx', f''⟩ ⟨_, _⟩ ⟨rfl, rfl⟩
  apply Related.ite Iff.rfl
  · intro _
    rfl
  · intro _
    exact ⟨rfl, rfl⟩

/-- `parse_x509` fully initialises its result: whatever `*ret_fields` holds before the call,
the code is the same, and so is every field if the code is `PARSE_OK`. -/
theorem parseX509_initialises (raw : Bytes) (f g : X509Fields) :
    parseX509 raw f = parseX509 raw g := by
  have hrelated : Related Eq (parseX509 raw f) (parseX509 raw g) := by
    unfold parseX509
    apply Related.bind (related_self _)
    rintro ⟨idx, certEnd⟩ _ rfl
    apply Related.ite Iff.rfl
    · intro _
      rfl
    intro _
    apply Related.bind (parseTbsCertificate_resigned raw idx certEnd f g)
    rintro ⟨idx, f'⟩ ⟨_, _⟩ ⟨rfl, rfl⟩
    exact related_self _
  exact hrelated.eq

end X509Server
