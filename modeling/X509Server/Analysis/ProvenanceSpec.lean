import X509Server.Analysis.SessionSpec
import X509Server.Analysis.ValiditySpec
import X509Server.Interface.Provenance

/-!
# From the certificate to the shell

A key object is written when it is made and never again: reading a further certificate leaves
the objects of the keys in use alone (`readCert_keeps`), and so do verifications and removals.
So each key in use is still the one of its certificate when a script is verified with it.
-/

set_option autoImplicit false

namespace X509Server

open Checked Runs

variable (env : OpenSsl)

/-! ## Key objects that are left alone -/

/-- The objects hold what they held. -/
def World.Keeps (w w' : World) (keep : ℕ → Prop) : Prop :=
  ∀ h, keep h → w'.material h = w.material h

section Keeps

variable {w w' : World} {keep : ℕ → Prop}

theorem World.Keeps.of_eq (h : w'.material = w.material) : w.Keeps w' keep :=
  fun _ _ => by rw [h]

theorem World.Keeps.trans {w₁ w₂ w₃ : World} (h : w₁.Keeps w₂ keep) (h' : w₂.Keeps w₃ keep) :
    w₁.Keeps w₃ keep :=
  fun handle hkeep => (h' handle hkeep).trans (h handle hkeep)

/-- An object that is not to be kept is written. -/
theorem World.Keeps.update {handle : ℕ} (h : w.Keeps w' keep) (hnew : ¬ keep handle)
    (material : Option KeyMaterial) :
    w.Keeps { w' with material := Function.update w'.material handle material } keep := by
  intro other hkeep
  have hne : other ≠ handle := fun heq => hnew (heq ▸ hkeep)
  exact (Function.update_of_ne hne _ _).trans (h other hkeep)

theorem World.create_fst (w : World) : (w.create env).1 = w.next ∨ (w.create env).1 = null := by
  unfold World.create
  split
  · exact Or.inl rfl
  · exact Or.inr rfl

/-- What has been given out is not a new handle. -/
theorem World.not_keep_create (hkeep : ∀ h, keep h → h ≠ null ∧ h < w.next) :
    ¬ keep (w.create env).1 := by
  intro hold
  obtain ⟨hne, hlt⟩ := hkeep _ hold
  rcases w.create_fst env with hnew | hnull
  · omega
  · exact hne hnull

/-! ## The extraction -/

theorem edConstruct_keeps (type : KeyType) (key : Bytes) (pub : PubKey)
    (hkeep : ∀ h, keep h → h ≠ null ∧ h < w.next) :
    w.Keeps (edConstruct env type key pub w).2.2 keep := by
  have hnew := World.not_keep_create env hkeep
  have hcreate : (w.create env).2.material = w.material := w.create_material env
  unfold edConstruct evpPkeyNewRawPublicKey
  generalize w.create env = r at hnew hcreate
  obtain ⟨handle, w₁⟩ := r
  dsimp only at hnew hcreate ⊢
  have hkeeps : w.Keeps w₁ keep := .of_eq hcreate
  by_cases hnull : handle = null
  · rw [if_pos hnull, if_pos rfl]
    exact hkeeps
  · rw [if_neg hnull, if_neg hnull]
    have hmade := hkeeps.update hnew (some (.raw type key))
    split <;> exact hmade.trans (.of_eq (World.create_material env _))

theorem evpPkeyFromdata_keeps {ppkey : Field ℕ} (modulus exponent : Bytes)
    (hkeep : ∀ h, keep h → h ≠ null ∧ h < w.next) (hppkey : ¬ keep ppkey.value) :
    w.Keeps (evpPkeyFromdata env ppkey modulus exponent w).2.2 keep := by
  have hpass : w.Keeps (w.pass ppkey) keep := .of_eq (w.pass_material ppkey)
  have hkeep' : ∀ h, keep h → h ≠ null ∧ h < (w.pass ppkey).next := by
    rw [w.pass_next ppkey]
    exact hkeep
  unfold evpPkeyFromdata
  generalize w.pass ppkey = w₁ at hpass hkeep'
  dsimp only
  split
  · have hnew := World.not_keep_create env hkeep'
    have hcreate := hpass.trans (.of_eq (w₁.create_material env))
    generalize w₁.create env = r at hnew hcreate
    obtain ⟨handle, w₂⟩ := r
    dsimp only at hnew hcreate ⊢
    split
    · exact hcreate
    · exact hcreate.update hnew _
  · have hanswer := hpass.trans (.of_eq (w₁.answer_material env))
    generalize w₁.answer env = r at hanswer
    obtain ⟨ok, w₂⟩ := r
    dsimp only at hanswer ⊢
    split
    · exact hanswer.update hppkey _
    · exact hanswer

theorem pushRsaParams_material (w : World) : (pushRsaParams env w).2.material = w.material := by
  unfold pushRsaParams
  dsimp only
  split
  · rfl
  · split <;> rfl

theorem rsaPrepare_material (w : World) : (rsaPrepare env w).2.2.material = w.material := by
  unfold rsaPrepare
  dsimp only
  split_ifs <;> simp [pushRsaParams_material]

theorem rsaFromdata_keeps (modulus exponent : Bytes) {pub : PubKey}
    (hkeep : ∀ h, keep h → h ≠ null ∧ h < w.next) (hpub : ¬ keep pub.openssl.pkey.value) :
    Safe (rsaFromdata env modulus exponent pub w) fun r => w.Keeps r.2.2 keep := by
  have hkeeps := evpPkeyFromdata_keeps env modulus exponent hkeep hpub
  have hmat := evpPkeyFromdata_ok env pub.openssl.pkey modulus exponent w
  unfold rsaFromdata
  dsimp only
  generalize evpPkeyFromdata env pub.openssl.pkey modulus exponent w = called at hmat hkeeps
  obtain ⟨ok, pkey, w₁⟩ := called
  dsimp only at hmat hkeeps ⊢
  refine Safe.ite (fun _ => ?_) fun hok => ?_
  · refine Safe.ite (fun _ => ?_) fun _ => hkeeps
    exact hkeeps.trans (.of_eq (w₁.freeField_material pkey))
  · obtain ⟨hne, -⟩ := hmat (by simpa using hok)
    refine Safe.bind (Q := fun _ => True) (by simp [assertThat, hne]) fun _ _ => ?_
    have hcreate := hkeeps.trans (.of_eq (w₁.create_material env))
    exact Safe.ite (fun _ => hcreate) fun _ => hcreate

theorem rsaConstruct_keeps (modulus exponent : Bytes) {pub : PubKey}
    (hkeep : ∀ h, keep h → h ≠ null ∧ h < w.next)
    (hpub : (rsaPrepare env w).1 = true → ¬ keep pub.openssl.pkey.value) :
    Safe (rsaConstruct env modulus exponent pub w) fun r => w.Keeps r.2.2 keep := by
  have hprepared : w.Keeps (rsaPrepare env w).2.2 keep := .of_eq (rsaPrepare_material env w)
  have hafter := @rsaPrepare_after env w
  unfold rsaConstruct
  generalize rsaPrepare env w = prepared at hprepared hpub hafter
  obtain ⟨ready, locals, w₁⟩ := prepared
  dsimp only at hprepared hpub hafter ⊢
  refine Safe.ite (fun _ => ?_) fun hready => ?_
  · exact hprepared.trans (.of_eq (locals.release_material w₁))
  have hready : ready = true := by simpa using hready
  have hkeep' : ∀ h, keep h → h ≠ null ∧ h < w₁.next := fun h hold =>
    ⟨(hkeep h hold).1, (hkeep h hold).2.trans_le (hafter hready).next_le⟩
  refine (rsaFromdata_keeps env modulus exponent hkeep' (hpub hready)).bind ?_
  rintro ⟨code, pub', w₂⟩ hmade
  exact hprepared.trans (hmade.trans (.of_eq (locals.release_material w₂)))

variable (c : Certificate)

theorem rsaExtract_keeps (hlen : c.encode.length < 2 ^ 63) {pub : PubKey}
    (hkeep : ∀ h, keep h → h ≠ null ∧ h < w.next)
    (hpub : (∃ octets pub', rsaCheck c.encode c.fields pub = .ok (.inr octets, pub')) →
      (rsaPrepare env w).1 = true → ¬ keep pub.openssl.pkey.value) :
    Safe (rsaExtract env c.encode c.fields pub w) fun r => w.Keeps r.2.2 keep := by
  obtain ⟨⟨result, pub'⟩, hcheck, md, size, hpub', -, -⟩ :=
    (rsaCheck_safe c hlen pub).exists_ok
  dsimp only at hpub'
  subst hpub'
  unfold rsaExtract
  rw [hcheck, ok_bind]
  cases result with
  | inl code => exact World.Keeps.of_eq rfl
  | inr octets => exact rsaConstruct_keeps env _ _ hkeep (hpub ⟨_, _, hcheck⟩)

theorem edExtract_keeps (type : KeyType) (pub : PubKey)
    (hkeep : ∀ h, keep h → h ≠ null ∧ h < w.next) :
    Safe (edExtract env c.encode c.fields type pub w) fun r => w.Keeps r.2.2 keep := by
  rw [edExtract_eq, safe_ok]
  split
  · exact .of_eq rfl
  · split
    · exact .of_eq rfl
    · exact edConstruct_keeps env type _ pub hkeep

theorem pubKeyExtract_keeps (hlen : c.encode.length < 2 ^ 63) {pub : PubKey}
    (hkeep : ∀ h, keep h → h ≠ null ∧ h < w.next)
    (hpub : rsaOid = c.keyInfo.algorithm.algorithm →
      (∃ octets pub', rsaCheck c.encode c.fields { pub with algIdx := 2 } =
        .ok (.inr octets, pub')) →
      (rsaPrepare env w).1 = true → ¬ keep pub.openssl.pkey.value) :
    Safe (pubKeyExtract env c.encode c.fields pub w) fun r => w.Keeps r.2.2 keep := by
  unfold pubKeyExtract supportedAlgs
  rw [extractByAlg_cons]
  refine Safe.ite (fun _ => edExtract_keeps env c .ed25519 _ hkeep) fun _ => ?_
  rw [extractByAlg_cons]
  refine Safe.ite (fun _ => edExtract_keeps env c .ed448 _ hkeep) fun _ => ?_
  rw [extractByAlg_cons]
  refine Safe.ite (fun hoid => ?_) fun _ => World.Keeps.of_eq rfl
  exact rsaExtract_keeps env c hlen hkeep (hpub hoid)

theorem selfSignVerify_keeps {pub : PubKey} (hpub : c.Extracted pub w) :
    Safe (selfSignVerify env c.encode c.fields pub w) fun r => w.Keeps r.2.2 keep := by
  rw [selfSignVerify_eq]
  refine (pubKeyVerify_safe env _ _ w hpub.algIdx hpub.mdCtx).bind ?_
  rintro ⟨ok, w₁⟩ ⟨hmat, -⟩
  have hverified : w.Keeps w₁ keep := .of_eq hmat
  refine Safe.ite (fun _ => hverified) fun _ => ?_
  refine (pubKeyFree_safe w₁ hpub.algIdx).bind ?_
  rintro _ rfl
  apply hverified.trans
  unfold opensslFree
  exact .of_eq ((World.freeField_material _ _).trans (w₁.freeField_material _))

/-- The extraction writes to new key objects, and to the slot's own if an RSA certificate comes
to `EVP_PKEY_fromdata`. -/
theorem extract_keeps (hlen : c.encode.length < 2 ^ 63) (now : ℤ) {pub : PubKey}
    (hkeep : ∀ h, keep h → h ≠ null ∧ h < w.next)
    (hpub : ReachesFromdata env c.encode c.fields now pub w → ¬ keep pub.openssl.pkey.value) :
    Safe (extractSelfSignForCodeSign env c.encode c.fields now pub w)
      fun r => w.Keeps r.2.2 keep := by
  obtain ⟨o, hcheck, -⟩ := (selfSignCheck_safe c now).exists_ok
  unfold extractSelfSignForCodeSign
  rw [hcheck, ok_bind]
  cases o with
  | some code => exact World.Keeps.of_eq rfl
  | none =>
    have hkeeps := pubKeyExtract_keeps env c hlen hkeep fun hoid hchecked hprepared =>
      hpub ((reachesFromdata_iff env c now).mpr ⟨hcheck, hoid, hchecked, hprepared⟩)
    obtain ⟨⟨code, pub', w₁⟩, hok, hextracted⟩ := (pubKeyExtract_safe env c hlen pub w).exists_ok
    have hfirst := hkeeps.of_ok hok
    rw [hok]
    refine Safe.ite (fun _ => hfirst) fun hcode => ?_
    have hsecond : Safe (selfSignVerify env c.encode c.fields pub' w₁)
        fun r => w₁.Keeps r.2.2 keep :=
      selfSignVerify_keeps env c (hextracted (not_not.mp hcode))
    exact hsecond.mono fun r h => hfirst.trans h

end Keeps

/-! ## `read_cert` -/

/-- A key object that still holds what it held is the one of the same certificate. -/
theorem CertFile.Certifies.keeps {w w' : World} {key : PubKey} {file : CertFile}
    (h : file.Certifies env w key)
    (hmat : w'.material key.openssl.pkey.value = w.material key.openssl.pkey.value) :
    file.Certifies env w' key := by
  obtain ⟨c, hcontents, hvalid, hexpires, htrusted⟩ := h
  obtain ⟨hauthority, husage, hsigning, hids, houter, hkey, hexpiry⟩ := htrusted
  refine ⟨c, hcontents, hvalid, hexpires, hauthority, husage, hsigning, hids, houter, ?_, hexpiry⟩
  rw [hmat]
  exact hkey

/-- `read_cert` leaves the objects of others alone, and a key it accepts is one of a trusted
certificate. -/
theorem readCert_keeps (file : CertFile) {pub : PubKey} {w : World} {keep : ℕ → Prop}
    (hkeep : ∀ h, keep h → h ≠ null ∧ h < w.next) (hpub : pub.Apart keep)
    (hallowed : ReadAllowed env file pub w) :
    Safe (readCert env file pub w) fun r =>
      w.Keeps r.2.2 keep ∧ (r.1 = true → file.Certifies env r.2.2 r.2.1) := by
  have hrefused : w.Keeps w keep ∧ (false = true → file.Certifies env w pub) :=
    ⟨.of_eq rfl, fun h => absurd h (by decide)⟩
  unfold readCert
  cases hcontents : file.contents with
  | none => exact hrefused
  | some raw =>
    have hlen := file.size_lt raw hcontents
    dsimp only
    refine Safe.ite (fun _ => hrefused) fun _ => ?_
    cases hparse : parseX509 raw .zero with
    | error stop =>
      cases stop with
      | code code => exact hrefused
      | fault fault => exact absurd hparse ((parseX509_safe raw .zero hlen).ne_fault fault)
    | ok fields =>
      obtain ⟨c, rfl, rfl⟩ := (parseX509_ok_iff raw .zero fields hlen).mp hparse
      rw [show tryParse (.ok c.fields : Parse X509Fields) = .ok (some c.fields) from rfl, ok_bind]
      have hkeeps := extract_keeps env c hlen file.now hkeep fun hreaches =>
        hpub (hallowed _ _ hcontents hparse hreaches).1
      obtain ⟨⟨code, pub', w'⟩, hok, htrusted⟩ :=
        (extract_safe env c hlen file.now pub w).exists_ok
      dsimp only
      rw [hok, ok_bind]
      refine ⟨hkeeps.of_ok hok, fun haccepted => ?_⟩
      obtain ⟨hcertificate, ⟨hbefore, hafter⟩, -⟩ := htrusted (of_decide_eq_true haccepted)
      rw [c.fields_eq] at hbefore hafter
      obtain ⟨hlenBefore, hlenAfter⟩ := c.time_length_le
      obtain ⟨d, hd, hfrom⟩ := c.tbsCertificate.notBefore.exists_readAs (by omega)
      obtain ⟨d', hd', hto⟩ := c.tbsCertificate.notAfter.exists_readAs (by omega)
      have hexpiry := hcertificate.expiry.trans hto
      exact ⟨c, hcontents, ⟨⟨d, hd, hfrom ▸ hbefore⟩, d', hd', hto ▸ hafter⟩, ⟨d', hd', hexpiry⟩,
        hcertificate⟩

/-! ## The start -/

section Start

variable {source : Source} {s s' : KeyStore} {w w' : World}

theorem KeyStore.read_eq_ok {file : CertFile} (h : s.read env file w = .ok (s', w')) :
    ∃ slot accepted pub, s.keys[s.keysSize]? = some slot ∧
      readCert env file slot w = .ok (accepted, pub, w') := by
  unfold KeyStore.read slotAt at h
  cases hslot : s.keys[s.keysSize]? with
  | none =>
    rw [hslot] at h
    cases h
  | some slot =>
    rw [hslot] at h
    dsimp only at h
    rw [ok_bind] at h
    cases hread : readCert env file slot w with
    | error stop =>
      rw [hread] at h
      cases h
    | ok r =>
      obtain ⟨accepted, pub, w₁⟩ := r
      rw [hread] at h
      obtain ⟨-, rfl⟩ := Prod.mk.inj (Except.ok.inj h)
      exact ⟨slot, accepted, pub, rfl, hread⟩

/-- The objects of the keys in use have been given out. -/
theorem KeyStore.Sound.given (h : s.Sound w) :
    ∀ a ∈ handlesOf s.loaded, a ≠ null ∧ a < w.next := by
  obtain ⟨others, haccounts⟩ := h.accounts
  exact fun a ha => haccounts.given a (haccounts.ledger.live_of_mem ha)

theorem mem_handlesOf {keys : List PubKey} {key : PubKey} (h : key ∈ keys) :
    key.openssl.pkey.value ∈ handlesOf keys ∧ key.openssl.mdCtx.value ∈ handlesOf keys :=
  ⟨List.mem_flatMap.mpr ⟨key, h, by simp [PubKey.handles]⟩,
    List.mem_flatMap.mpr ⟨key, h, by simp [PubKey.handles]⟩⟩

/-- Each key in use is one of a certificate that has been read. -/
structure KeyStore.Grounded (s : KeyStore) (w : World) (source : Source) : Prop where
  sound : s.Sound w
  certified : ∀ key ∈ s.loaded, Certified env w source key

theorem KeyStore.malloc_grounded (memory : ℕ → PubKey) (source : Source) :
    (KeyStore.malloc memory).Grounded env .initial source :=
  ⟨KeyStore.malloc_sound memory, by simp [KeyStore.loaded, KeyStore.malloc]⟩

theorem KeyStore.Grounded.read (h : s.Grounded env w source) (hlt : s.keysSize < s.keys.length)
    {file : CertFile} (hreads : source.Reads file)
    (hallowed : ∀ slot, s.keys[s.keysSize]? = some slot → ReadAllowed env file slot w)
    (hread : s.read env file w = .ok (s', w')) : s'.Grounded env w' source := by
  refine ⟨(h.sound.read env hlt file hallowed).of_ok hread, fun key hkey => ?_⟩
  obtain ⟨slot, accepted, pub, hslot, hcert⟩ := s.read_eq_ok env hread
  obtain ⟨hkeeps, hcertifies⟩ := (readCert_keeps env file h.sound.given
    (h.sound.apart slot hslot) (hallowed slot hslot)).of_ok hcert
  rcases (s.read_loaded env h.sound.size_le hread).2 key hkey with hold | ⟨slot', hslot', hnew⟩
  · obtain ⟨old, hold', hcertifies⟩ := h.certified key hold
    exact ⟨old, hold', hcertifies.keeps env (hkeeps _ (mem_handlesOf hold).1)⟩
  · obtain rfl := Option.some.inj (hslot.symm.trans hslot')
    obtain ⟨rfl, rfl⟩ : accepted = true ∧ pub = key := by
      simpa using hcert.symm.trans hnew
    exact ⟨file, hreads, hcertifies rfl⟩

variable (memory : ℕ → PubKey)

theorem KeyStore.Grounded.reserve (h : s.Grounded env w source) :
    (s.reserve memory).Grounded env w source := by
  refine ⟨(h.sound.reserve memory).1, fun key hkey => h.certified key ?_⟩
  rwa [s.reserve_loaded memory h.sound.size_le] at hkey

theorem loadEntry_grounded {entry : DirEntry} (h : s.Grounded env w source)
    (hreads : entry.name ≠ "." ∧ entry.name ≠ ".." → source.Reads entry.file)
    (hallowed : LoadAllowed env memory entry s w)
    (hentry : loadEntry env memory entry s w = .ok (s', w')) : s'.Grounded env w' source := by
  have hsize := s.reserve_keysSize memory
  unfold loadEntry at hentry
  split at hentry
  · obtain ⟨rfl, rfl⟩ := Prod.mk.inj (Except.ok.inj hentry)
    exact h
  · rename_i hname
    refine (h.reserve env memory).read env (hsize ▸ (h.sound.reserve memory).2)
      (hreads (not_or.mp hname)) (fun slot hslot => ?_) hentry
    exact hallowed slot (hsize ▸ hslot)

theorem loadRun_grounded {entries : List DirEntry} {r r' : KeyStore × World}
    (hrun : Run (LoadStep env memory) r entries r') (h : r.1.Grounded env r.2 source)
    (hreads : ∀ entry ∈ entries, entry.name ≠ "." ∧ entry.name ≠ ".." →
      source.Reads entry.file) : r'.1.Grounded env r'.2 source := by
  induction hrun with
  | nil r => exact h
  | cons head tail ih =>
    obtain ⟨hallowed, hentry⟩ := head
    have hnext := loadEntry_grounded env memory h (hreads _ (.head _)) hallowed hentry
    exact ih hnext fun entry hmem => hreads entry (.tail _ hmem)

/-- Behind an allowed start, each key in use is one of a certificate that has been read. -/
theorem AllowedStart.grounded (h : AllowedStart env memory s w source) :
    s.Grounded env w source := by
  have hstart := KeyStore.malloc_grounded env memory source
  cases source with
  | directory entries =>
    exact loadRun_grounded env memory h hstart fun entry hmem hname =>
      ⟨entry, hmem, hname, rfl⟩
  | file file => exact hstart.read env (show 0 < 4 by decide) rfl h.1 h.2

end Start

/-! ## Verification -/

section Serving

variable {s : KeyStore} {n : ℕ} {w : World}

theorem KeyStore.Serving.perform_material (h : s.Serving n w) (op : KeyOperation)
    (hslot : op.slot < n) :
    Safe (s.perform env w op) fun r => r.2.material = w.material := by
  cases op with
  | verify slot data sig =>
    change slot < n at hslot
    have hlt : slot < s.keys.length := lt_of_lt_of_le hslot h.length_le
    have hkey : s.keys[slot] ∈ s.keys.take n := by
      apply List.mem_of_getElem? (i := slot)
      rw [List.getElem?_take_of_lt hslot, List.getElem?_eq_getElem hlt]
    obtain ⟨others, haccounts⟩ := h.accounts
    have hctx := haccounts.ne_null_of_mem (mem_handlesOf hkey).2
    unfold KeyStore.perform
    dsimp only
    rw [slotAt_eq hlt, ok_bind]
    exact (pubKeyVerify_safe env data sig w (h.ready _ hkey).algIdx hctx).bind fun r hr => hr.1
  | swapRemove slot =>
    unfold KeyStore.perform
    refine Safe.ite (fun hsize => ?_) fun _ => rfl
    obtain ⟨s', hremove, -⟩ := s.swapRemove_spec Empty (i := slot) hslot (by omega) h.size_le
      h.length_le
    rw [hremove, ok_bind]
    rfl

theorem KeyStore.Serving.performAll_material (h : s.Serving n w) (ops : List KeyOperation)
    (hslots : ∀ op ∈ ops, op.slot < n) :
    Safe (KeyStore.performAll env ops s w) fun r => r.2.material = w.material := by
  induction ops generalizing s w with
  | nil => rfl
  | cons op ops ih =>
    obtain ⟨⟨s₁, w₁⟩, hok, hserving⟩ := (h.perform env op (hslots op (.head _))).exists_ok
    have hfirst := (h.perform_material env op (hslots op (.head _))).of_ok hok
    unfold KeyStore.performAll
    rw [hok, ok_bind]
    refine (ih hserving fun op hop => hslots op (.tail _ hop)).mono ?_
    exact fun r hr => hr.trans hfirst

/-- What is accepted for a key in use verifies under the object that its slot points to. -/
theorem KeyStore.Sound.verifies {verify : PubKey → Bytes → Bytes → Bool} (h : s.Sound w)
    (hverify : VerifiedByOpenSsl env s w verify) {key : PubKey} (hkey : key ∈ s.loaded)
    {data sig : Bytes} (htrue : verify key data sig = true) :
    w.verifies env key data sig = true := by
  obtain ⟨ops, s₁, w₁, w₂, hslots, hops, hok⟩ := hverify key hkey data sig htrue
  obtain ⟨others, haccounts⟩ := h.accounts
  have hctx := haccounts.ne_null_of_mem (mem_handlesOf hkey).2
  have hmat := (h.serving.performAll_material env ops hslots).of_ok hops
  obtain ⟨-, hverified⟩ :=
    (pubKeyVerify_safe env data sig w₁ (h.ready key hkey).algIdx hctx).of_ok hok
  obtain ⟨-, material, hmaterial, hverifies⟩ := hverified rfl
  unfold World.verifies
  rw [← hmat, hmaterial]
  exact hverifies

end Serving

/-! ## Executions -/

/-- If no load takes an unusable slot to `EVP_PKEY_fromdata`, and whatever the kernel answers
and the peers send: a script is executed only for a connection that has sent exactly a
signature, a newline and the script, where the signature verifies under the key of a trusted
certificate, which was read in its validity period and has not expired.  The dates of these
are what its Times are read as: a UTCTime as the date it denotes, a GeneralizedTime as that
date 1900 years later. -/
theorem executed_certified (memory : ℕ → PubKey) (source : Source) (store : KeyStore)
    (w : World) (hstart : AllowedStart env memory store w source)
    (verify : PubKey → Bytes → Bytes → Bool) (hverify : VerifiedByOpenSsl env store w verify)
    (labels : List Label) (s : Server)
    (hrun : Run (fun s l t => s.step verify l = some t) (Server.start store) labels s) :
    Logged (Authenticated (w.verifies env) (Certified env w source)) s.log := by
  have hgrounded := hstart.grounded env memory
  have hsessions := hrun.invariant (I := Sessions verify (· ∈ store.loaded))
    (fun s l t h hstep => h.step hstep) (.start hgrounded.sound.size_le fun _ hkey => hkey)
  refine hsessions.logged.mono fun before o ho => ?_
  cases o with
  | executed slot script n =>
    obtain ⟨earlier, now, sig, key, hbefore, hreceived, hkey, hsig, htrue, hnow⟩ := ho
    exact ⟨earlier, now, sig, key, hbefore, hreceived, hgrounded.certified key hkey, hsig,
      hgrounded.sound.verifies env hverify hkey htrue, hnow⟩
  | opened slot => trivial
  | received slot chunk => trivial
  | terminated slot now => trivial
  | closed slot => trivial

/-- `pub_key_verify` as it answers behind the start with one Ed25519 certificate. -/
def ed25519Verify (key : PubKey) (data sig : Bytes) : Bool :=
  match loadKeys .accepting (fun _ => .unwritten) (.file ed25519File) .initial with
  | .ok (_, w) =>
    match pubKeyVerify .accepting key data sig w with
    | .ok (ok, _) => ok
    | .error _ => false
  | .error _ => false

/-- One Ed25519 certificate, and one script that is executed. -/
theorem executed_certified_ed25519 :
    ∃ (store : KeyStore) (w : World) (s : Server),
      AllowedStart .accepting (fun _ => .unwritten) store w (.file ed25519File) ∧
      s.log = [.opened 0, .received 0 (List.replicate 64 7 ++ [10, 42]), .terminated 0 0,
        .executed 0 [42] 1, .closed 0] ∧
      Logged (Authenticated (w.verifies .accepting)
        (Certified .accepting w (.file ed25519File))) s.log := by
  have hlog : (loadKeys .accepting (fun _ => .unwritten) (.file ed25519File) .initial).map
      (fun r => ((messageSession (List.replicate 64 7 ++ [10, 42])).foldlM
        (Server.step ed25519Verify) (Server.start r.1)).map fun s => s.log) =
      .ok (some [.opened 0, .received 0 (List.replicate 64 7 ++ [10, 42]), .terminated 0 0,
        .executed 0 [42] 1, .closed 0]) := by
    decide +kernel
  obtain ⟨store, w, hstart⟩ := exists_allowedStart .accepting (fun _ => .unwritten) ed25519File
    fun slot => readAllowed_of_ne .accepting _ _ (by decide +kernel) slot .initial
  have hload := hstart.sound.1
  rw [hload] at hlog
  obtain ⟨s, hrun, hs⟩ := Option.map_eq_some_iff.mp (Except.ok.inj hlog)
  have hverify : VerifiedByOpenSsl .accepting store w ed25519Verify := by
    intro key _ data sig htrue
    refine ⟨[], store, w, ?_⟩
    unfold ed25519Verify at htrue
    rw [hload] at htrue
    dsimp only at htrue
    cases hcall : pubKeyVerify .accepting key data sig w with
    | error stop =>
      rw [hcall] at htrue
      cases htrue
    | ok r =>
      rw [hcall] at htrue
      obtain ⟨ok, w'⟩ := r
      obtain rfl : ok = true := htrue
      exact ⟨w', by simp, rfl, rfl⟩
  exact ⟨store, w, s, hstart, hs, executed_certified .accepting _ _ store w hstart _ hverify _ s
    ((run_iff_foldlM (Server.step ed25519Verify) _ s _).mpr hrun)⟩

end X509Server
