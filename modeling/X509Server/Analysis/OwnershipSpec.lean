import X509Server.Analysis.StoreSpec
import X509Server.Interface.Ownership

/-!
# Ownership

Each part of an extraction ends well or badly (`EndsWell`, `EndsBadly`), and which of the two
depends on the slot and on the answers of OpenSSL only.  A bad end stays one: an object that
nobody owns is not found again, a key that was freed does not come back, and a misuse is
not taken back.
-/

set_option autoImplicit false

namespace X509Server

open Checked Ledgers

section Ends

variable (env : OpenSsl) {w w' : World} {others : ℕ → Prop} {held : List ℕ}
  {misuses : List Misuse} {n : ℕ}

/-! ## Ends -/

/-- Nothing but what was held in front is left of the objects, or the two objects of a slot
that is ready. -/
inductive EndsWell (others : ℕ → Prop) (misuses : List Misuse) (held : List ℕ) :
    Extraction → Prop where
  | rejected {code : ExtractCode} {pub : PubKey} {w : World} (hcode : code ≠ .certOk)
      (h : w.Accounts others held misuses) : EndsWell others misuses held (code, pub, w)
  | made {pub : PubKey} {w : World} (hready : pub.Ready)
      (h : w.Accounts others (pub.handles ++ held) misuses) :
      EndsWell others misuses held (.certOk, pub, w)

/-- A key is left behind a failure, a key of others has been freed or is handed out as new,
or a handle has been misused. -/
inductive EndsBadly (others : ℕ → Prop) (misuses : List Misuse) (held : List ℕ) :
    Extraction → Prop where
  | leaked {code : ExtractCode} {pub : PubKey} {w : World} (key : ℕ) (hcode : code ≠ .certOk)
      (h : w.Accounts others (key :: held) misuses) : EndsBadly others misuses held (code, pub, w)
  | lost {code : ExtractCode} {pub : PubKey} {w : World} (old : ℕ) (hcode : code ≠ .certOk)
      (hold : others old) (h : w.live old = false) : EndsBadly others misuses held (code, pub, w)
  | foreign {pub : PubKey} {w : World} (hready : pub.Ready)
      (hold : others pub.openssl.pkey.value)
      (h : w.Accounts (fun a => others a ∧ a ∉ [pub.openssl.pkey.value]) (pub.handles ++ held)
        misuses) : EndsBadly others misuses held (.certOk, pub, w)
  | misused {code : ExtractCode} {pub : PubKey} {w : World}
      (halg : pub.algIdx < supportedAlgs.length)
      (hctx : code = .certOk → pub.openssl.mdCtx.value ≠ null)
      (h : misuses.length < w.misuses.length) : EndsBadly others misuses held (code, pub, w)

/-- The condition decides how it ends. -/
def Ends (keeps : Prop) (others : ℕ → Prop) (misuses : List Misuse) (held : List ℕ)
    (r : Extraction) : Prop :=
  (keeps → EndsWell others misuses held r) ∧ (¬ keeps → EndsBadly others misuses held r)

theorem Ends.congr {keeps keeps' : Prop} {r : Extraction} (h : Ends keeps others misuses held r)
    (hiff : keeps' ↔ keeps) : Ends keeps' others misuses held r :=
  ⟨fun hkeeps => h.1 (hiff.mp hkeeps), fun hnot => h.2 fun hkeeps => hnot (hiff.mpr hkeeps)⟩

/-- A part in which nothing can be left. -/
theorem EndsWell.ends {keeps : Prop} {r : Extraction} (h : EndsWell others misuses held r)
    (hkeeps : keeps) : Ends keeps others misuses held r :=
  ⟨fun _ => h, fun hnot => absurd hkeeps hnot⟩

theorem EndsBadly.ends {keeps : Prop} {r : Extraction} (h : EndsBadly others misuses held r)
    (hnot : ¬ keeps) : Ends keeps others misuses held r :=
  ⟨fun hkeeps => absurd hkeeps hnot, fun _ => h⟩

/-! ## Ed25519 and Ed448 -/

/-- A raw key is left behind exactly if it is made and its context is refused. -/
theorem edConstruct_ends {type : KeyType} {key : Bytes} {pub : PubKey}
    (h : w.Accounts others held misuses) (halg : pub.algIdx < supportedAlgs.length) :
    Ends (env.succeeds w.calls = true → env.succeeds (w.calls + 1) = true) others misuses held
      (edConstruct env type key pub w) := by
  have hnull : (evpPkeyNewRawPublicKey env type key w).1 = null ↔
      env.succeeds w.calls = false := by
    rw [← World.create_eq_null_iff env h.next_pos]
    unfold evpPkeyNewRawPublicKey
    dsimp only
    split
    · rename_i hnull
      exact iff_of_true rfl hnull
    · rfl
  have hcalls : (evpPkeyNewRawPublicKey env type key w).2.calls = w.calls + 1 := by
    rw [← ((World.After.refl w).create env).calls_eq]
    unfold evpPkeyNewRawPublicKey
    dsimp only
    split <;> rfl
  have h1 := evpPkeyNewRawPublicKey_accounts env type key h
  unfold edConstruct
  generalize evpPkeyNewRawPublicKey env type key w = r1 at h1 hnull hcalls
  obtain ⟨pkey, w1⟩ := r1
  dsimp only at h1 hnull hcalls ⊢
  by_cases hpkey : pkey = null
  · rw [if_pos hpkey]
    rw [hpkey] at h1
    have hfailed := hnull.mp hpkey
    exact (EndsWell.rejected (by decide) h1).ends (by simp [hfailed])
  · rw [if_neg hpkey]
    rw [owned_of_ne hpkey] at h1
    have hmade : env.succeeds w.calls = true := by simpa [hpkey] using hnull
    have hctxNull := World.create_eq_null_iff env h1.next_pos
    have h2 := h1.create env
    generalize w1.create env = r2 at h2 hctxNull
    obtain ⟨mdCtx, w2⟩ := r2
    dsimp only at h2 hctxNull ⊢
    rw [hcalls] at hctxNull
    by_cases hctx : mdCtx = null
    · rw [if_pos hctx]
      rw [hctx] at h2
      have hrefused := hctxNull.mp hctx
      exact (EndsBadly.leaked pkey (by decide) h2).ends (by simp [hmade, hrefused])
    · rw [if_neg hctx]
      rw [owned_of_ne hctx] at h2
      have hgiven : env.succeeds (w.calls + 1) = true := by simpa [hctx] using hctxNull
      apply EndsWell.ends _ fun _ => hgiven
      exact .made ⟨halg, rfl, rfl, rfl⟩ (h2.perm (List.Perm.swap pkey mdCtx held))

/-! ## RSA -/

/-- With a member that is not fit for it the run has no meaning. -/
theorem rsaFromdata_unusable {modulus exponent : Bytes} {pub : PubKey}
    (h : w.Accounts others held misuses) (halg : pub.algIdx < supportedAlgs.length)
    (hnot : ¬ pub.Usable w) :
    Safe (rsaFromdata env modulus exponent pub w) (EndsBadly others misuses held) := by
  have hpassed : misuses.length < (w.pass pub.openssl.pkey).misuses.length := by
    rw [← h.misuses_eq]
    exact World.pass_misuses_lt hnot
  rw [← evpPkeyFromdata_misuses env pub.openssl.pkey modulus exponent w] at hpassed
  have hok := evpPkeyFromdata_ok env pub.openssl.pkey modulus exponent w
  unfold rsaFromdata
  dsimp only
  generalize evpPkeyFromdata env pub.openssl.pkey modulus exponent w = called at hpassed hok
  obtain ⟨ok, pkey, w1⟩ := called
  dsimp only at hpassed hok ⊢
  refine Safe.ite (fun _ => ?_) fun hsuccess => ?_
  · refine Safe.ite (fun _ => ?_) fun _ => ?_
    · exact .misused halg (nomatch ·) (Nat.lt_of_lt_of_le hpassed (w1.freeField_misuses_le pkey))
    · exact .misused halg (nomatch ·) hpassed
  · obtain ⟨hne, -⟩ := hok (by simpa using hsuccess)
    refine Safe.bind (Q := fun _ => True) (by simp [assertThat, hne]) fun _ _ => ?_
    rw [← World.create_misuses env w1] at hpassed
    exact Safe.ite (fun hctx => .misused halg (fun _ => hctx) hpassed)
      fun _ => .misused halg (nomatch ·) hpassed

/-- In a slot with `NULL` a key is left behind exactly if it is made and its context is
refused. -/
theorem rsaFromdata_null {modulus exponent : Bytes} {pub : PubKey}
    (h : w.Accounts others held misuses) (halg : pub.algIdx < supportedAlgs.length)
    (hmd : pub.openssl.md.written = true) (hw : pub.openssl.pkey.written = true)
    (hnull : pub.openssl.pkey.value = null) :
    Safe (rsaFromdata env modulus exponent pub w)
      (Ends (env.succeeds w.calls = true → env.succeeds (w.calls + 1) = true)
        others misuses held) := by
  unfold rsaFromdata evpPkeyFromdata
  dsimp only
  rw [World.Accounts.pass_eq hw (Or.inl hnull), if_pos hnull]
  have hkeyNull := World.create_eq_null_iff env h.next_pos
  have hcalls := ((World.After.refl w).create env).calls_eq
  have h1 := h.create env
  generalize w.create env = r1 at h1 hkeyNull hcalls
  obtain ⟨pkey, w1⟩ := r1
  dsimp only at h1 hkeyNull hcalls ⊢
  by_cases hpkey : pkey = null
  · rw [if_pos hpkey]
    rw [hpkey] at h1
    have hfailed := hkeyNull.mp hpkey
    exact (EndsWell.rejected (by decide) h1).ends (by simp [hfailed])
  · rw [if_neg hpkey]
    rw [owned_of_ne hpkey] at h1
    have hmade : env.succeeds w.calls = true := by simpa [hpkey] using hkeyNull
    dsimp only
    rw [if_neg (by simp)]
    refine Safe.bind (Q := fun _ => True) (by simp [assertThat, Field.store, hpkey]) fun _ _ => ?_
    have h1' : World.Accounts { w1 with
        material := Function.update w1.material pkey (some (.rsa modulus exponent)) }
        others ([pkey] ++ held) misuses := h1.congr rfl rfl rfl
    have hctxNull := World.create_eq_null_iff env h1'.next_pos
    have h2 := h1'.create env
    generalize World.create env _ = r2 at h2 hctxNull
    obtain ⟨mdCtx, w2⟩ := r2
    dsimp only at h2 hctxNull ⊢
    rw [hcalls] at hctxNull
    by_cases hctx : mdCtx = null
    · rw [if_neg (not_not.mpr hctx)]
      rw [hctx] at h2
      have hrefused := hctxNull.mp hctx
      exact (EndsBadly.leaked pkey (by decide) h2).ends (by simp [hmade, hrefused])
    · rw [if_pos hctx]
      rw [owned_of_ne hctx] at h2
      have hgiven : env.succeeds (w.calls + 1) = true := by simpa [hctx] using hctxNull
      apply EndsWell.ends _ fun _ => hgiven
      exact .made ⟨halg, rfl, rfl, hmd⟩ (h2.perm (List.Perm.swap pkey mdCtx held))

/-- In a slot with a key from before, that key is freed or handed out again, unless it is
filled and a context is refused for it. -/
theorem rsaFromdata_stale {modulus exponent : Bytes} {pub : PubKey}
    (h : w.Accounts others held misuses) (halg : pub.algIdx < supportedAlgs.length)
    (hmd : pub.openssl.md.written = true) (hw : pub.openssl.pkey.written = true)
    (hold : others pub.openssl.pkey.value) :
    Safe (rsaFromdata env modulus exponent pub w)
      (Ends (env.succeeds w.calls = true ∧ env.succeeds (w.calls + 1) = false)
        others misuses held) := by
  have hne : pub.openssl.pkey.value ≠ null := fun hnull => h.not_others_null (hnull ▸ hold)
  unfold rsaFromdata evpPkeyFromdata
  dsimp only
  rw [World.Accounts.pass_eq hw (Or.inr (h.ledger.live_of_others hold)), if_neg hne]
  have h1 := h.answer env
  have hcalls : (w.answer env).2.calls = w.calls + 1 := rfl
  have hanswer : (w.answer env).1 = env.succeeds w.calls := rfl
  generalize w.answer env = r1 at h1 hcalls hanswer
  obtain ⟨ok, w1⟩ := r1
  dsimp only at h1 hcalls hanswer ⊢
  by_cases hok : ok = true
  · rw [if_pos hok]
    dsimp only
    rw [if_neg (by simp)]
    refine Safe.bind (Q := fun _ => True) (by simp [assertThat, hne]) fun _ _ => ?_
    have h1' : World.Accounts { w1 with
        material := Function.update w1.material pub.openssl.pkey.value
          (some (.rsa modulus exponent)) } others held misuses := h1.congr rfl rfl rfl
    have hctxNull := World.create_eq_null_iff env h1'.next_pos
    have h2 := h1'.create env
    generalize World.create env _ = r2 at h2 hctxNull
    obtain ⟨mdCtx, w2⟩ := r2
    dsimp only at h2 hctxNull ⊢
    rw [hcalls] at hctxNull
    by_cases hctx : mdCtx = null
    · rw [if_neg (not_not.mpr hctx)]
      rw [hctx] at h2
      exact (EndsWell.rejected (by decide) h2).ends ⟨hanswer ▸ hok, hctxNull.mp hctx⟩
    · rw [if_pos hctx]
      rw [owned_of_ne hctx] at h2
      refine EndsBadly.ends (.foreign ⟨halg, hw, rfl, hmd⟩ hold ?_) fun hkeeps =>
        hctx (hctxNull.mpr hkeeps.2)
      exact h2.claim (List.nodup_singleton _) fun a ha => List.mem_singleton.mp ha ▸ hold
  · rw [if_neg hok]
    dsimp only
    rw [if_pos rfl, if_pos hne]
    refine EndsBadly.ends (.lost pub.openssl.pkey.value (by decide) hold ?_) fun hkeeps =>
      hok (hanswer.trans hkeeps.1)
    unfold World.freeField
    rw [if_neg (by simp [hw])]
    exact World.free_live_self hne

/-- `EVP_PKEY_fromdata` and what follows it. -/
theorem rsaFromdata_ends {modulus exponent : Bytes} {pub : PubKey}
    (h : w.Accounts others held misuses) (halg : pub.algIdx < supportedAlgs.length)
    (hmd : pub.openssl.md.written = true)
    (hapart : pub.openssl.pkey.written = true → pub.openssl.pkey.value ∉ held) :
    Safe (rsaFromdata env modulus exponent pub w)
      (Ends (pub.Keeps env w w.calls) others misuses held) := by
  by_cases husable : pub.Usable w
  · obtain ⟨hw, hfit⟩ := husable
    by_cases hnull : pub.openssl.pkey.value = null
    · refine (rsaFromdata_null env h halg hmd hw hnull).mono fun r hr => hr.congr ?_
      unfold PubKey.Keeps
      rw [if_pos hnull]
      exact and_iff_right ⟨hw, hfit⟩
    · have hlive := hfit.resolve_left hnull
      have hold : others pub.openssl.pkey.value :=
        ((h.ledger.live_iff _).mp hlive).resolve_right (hapart hw)
      refine (rsaFromdata_stale env h halg hmd hw hold).mono fun r hr => hr.congr ?_
      unfold PubKey.Keeps
      rw [if_neg hnull]
      exact and_iff_right ⟨hw, hfit⟩
  · exact (rsaFromdata_unusable env h halg husable).mono fun r hr =>
      hr.ends fun hkeeps => husable hkeeps.1

/-- What a part has left in front of `out:` is left behind it. -/
theorem EndsWell.release {l : RsaLocals} {code : ExtractCode} {pub : PubKey}
    (h : EndsWell others misuses l.owned (code, pub, w)) :
    EndsWell others misuses [] (code, pub, l.release w) := by
  cases h with
  | rejected hcode h =>
    rw [← List.append_nil l.owned] at h
    exact .rejected hcode h.release
  | made hready h =>
    apply EndsWell.made hready
    rw [List.append_nil]
    exact (h.perm List.perm_append_comm).release

theorem EndsBadly.release {l : RsaLocals} {code : ExtractCode} {pub : PubKey}
    (h : EndsBadly others misuses l.owned (code, pub, w)) :
    EndsBadly others misuses [] (code, pub, l.release w) := by
  cases h with
  | leaked key hcode h =>
    rw [← List.singleton_append] at h
    exact .leaked key hcode (h.perm List.perm_append_comm).release
  | lost old hcode hold h =>
    apply EndsBadly.lost old hcode hold
    unfold RsaLocals.release
    iterate 5 apply World.free_live_of_dead
    exact h
  | foreign hready hold h =>
    apply EndsBadly.foreign hready hold
    rw [List.append_nil]
    exact (h.perm List.perm_append_comm).release
  | misused halg hctx h =>
    exact .misused halg hctx (Nat.lt_of_lt_of_le h (l.release_misuses_le _))

/-- The preparation leaves a slot as fit as it was. -/
theorem World.After.keeps_iff {pub : PubKey} (h : w.After w' n)
    (hstored : pub.openssl.pkey.written = true → pub.openssl.pkey.value < w.next) :
    pub.Keeps env w' w'.calls ↔ pub.Keeps env w (w.calls + n) := by
  unfold PubKey.Keeps PubKey.Usable
  rw [h.calls_eq]
  apply and_congr_left
  intro _
  apply and_congr_right
  intro hw
  rw [h.live_eq _ (hstored hw)]

/-- The OpenSSL part of `rsa_extract`. -/
theorem rsaConstruct_ends {modulus exponent : Bytes} {pub : PubKey}
    (h : w.Accounts others [] misuses) (halg : pub.algIdx < supportedAlgs.length)
    (hmd : pub.openssl.md.written = true)
    (hstored : pub.openssl.pkey.written = true → pub.openssl.pkey.value < w.next) :
    Safe (rsaConstruct env modulus exponent pub w)
      (Ends ((rsaPrepare env w).1 = true → pub.Keeps env w (w.calls + 9)) others misuses []) := by
  have h1 := h.rsaPrepare env
  have hafter := rsaPrepare_after env (w := w)
  unfold rsaConstruct
  generalize rsaPrepare env w = prepared at h1 hafter
  obtain ⟨ready, locals, w1⟩ := prepared
  dsimp only at h1 hafter ⊢
  refine Safe.ite (fun hready => ?_) fun hready => ?_
  · exact (EndsWell.rejected (by decide) h1.release).ends (by simp [hready])
  · have hprepared : ready = true := by simpa using hready
    have hafter := hafter hprepared
    rw [List.append_nil] at h1
    -- what was prepared did not exist before, so it is not in the slot
    have hapart : pub.openssl.pkey.written = true → pub.openssl.pkey.value ∉ locals.owned := by
      intro hw hmem
      have hlive := h1.ledger.live_of_mem hmem
      rw [hafter.live_eq _ (hstored hw), h.ledger.live_iff] at hlive
      exact h1.ledger.disjoint _ hmem (hlive.resolve_right (by simp))
    refine Safe.bind (rsaFromdata_ends env h1 halg hmd hapart) ?_
    rintro ⟨code, pub', w2⟩ hends
    have hiff := hafter.keeps_iff env hstored
    constructor
    · intro hkeeps
      exact (hends.1 (hiff.mpr (hkeeps hprepared))).release
    · intro hnot
      apply (hends.2 _).release
      exact fun hkeeps => hnot fun _ => hiff.mp hkeeps

/-! ## The extraction -/

variable (c : Certificate) {pub : PubKey}

theorem rsaExtract_ends (hlen : c.encode.length < 2 ^ 63) (h : w.Accounts others [] misuses)
    (halg : pub.algIdx < supportedAlgs.length)
    (hstored : pub.openssl.pkey.written = true → pub.openssl.pkey.value < w.next) :
    Safe (rsaExtract env c.encode c.fields pub w)
      (Ends ((∃ octets pub', rsaCheck c.encode c.fields pub = .ok (.inr octets, pub')) →
        (rsaPrepare env w).1 = true → pub.Keeps env w (w.calls + 9)) others misuses []) := by
  obtain ⟨⟨result, pub'⟩, hcheck, md, size, hpub', hcode, hkey⟩ :=
    (rsaCheck_safe c hlen pub).exists_ok
  dsimp only at hpub' hcode hkey
  subst hpub'
  unfold rsaExtract
  rw [hcheck, ok_bind]
  cases result with
  | inl code =>
    apply (EndsWell.rejected (hcode code rfl) h).ends
    rintro ⟨octets, pub', ⟨⟩⟩
  | inr octets =>
    obtain ⟨modulus, exponent⟩ := octets
    obtain ⟨digest, rest, rfl, -, -, -⟩ := hkey modulus exponent rfl
    apply Safe.mono
    · exact rsaConstruct_ends env h halg rfl hstored
    · intro r hr
      apply hr.congr
      exact ⟨fun hkeeps => hkeeps ⟨_, _, rfl⟩, fun hkeeps _ => hkeeps⟩

theorem edExtract_ends {type : KeyType} (h : w.Accounts others [] misuses)
    (halg : pub.algIdx < supportedAlgs.length) :
    Safe (edExtract env c.encode c.fields type pub w)
      (Ends (c.keyInfo.algorithm.parameters = [] →
        c.signatureAlgorithm.encode = c.keyInfo.algorithm.encode →
          env.succeeds w.calls = true → env.succeeds (w.calls + 1) = true) others misuses []) := by
  rw [edExtract_eq, safe_ok]
  by_cases hparams : c.keyInfo.algorithm.parameters = []
  · rw [if_neg (not_not.mpr hparams)]
    by_cases hsame : c.signatureAlgorithm.encode = c.keyInfo.algorithm.encode
    · rw [if_neg (not_not.mpr hsame)]
      apply (edConstruct_ends env h halg).congr
      exact ⟨fun hkeeps => hkeeps hparams hsame, fun hkeeps _ _ => hkeeps⟩
    · rw [if_pos hsame]
      exact (EndsWell.rejected (by decide) h).ends fun _ hmatch => absurd hmatch hsame
  · rw [if_pos hparams]
    exact (EndsWell.rejected (by decide) h).ends fun hbare => absurd hbare hparams

/-- The search of the table comes to at most one of the two parts. -/
theorem pubKeyExtract_ends (hlen : c.encode.length < 2 ^ 63) (h : w.Accounts others [] misuses)
    (hstored : pub.openssl.pkey.written = true → pub.openssl.pkey.value < w.next) :
    Safe (pubKeyExtract env c.encode c.fields pub w)
      (Ends (((ed25519Oid = c.keyInfo.algorithm.algorithm ∨
          ed448Oid = c.keyInfo.algorithm.algorithm) →
        c.keyInfo.algorithm.parameters = [] →
          c.signatureAlgorithm.encode = c.keyInfo.algorithm.encode →
            env.succeeds w.calls = true → env.succeeds (w.calls + 1) = true) ∧
        (rsaOid = c.keyInfo.algorithm.algorithm →
          (∃ octets pub', rsaCheck c.encode c.fields { pub with algIdx := 2 } =
            .ok (.inr octets, pub')) →
          (rsaPrepare env w).1 = true → pub.Keeps env w (w.calls + 9))) others misuses []) := by
  unfold pubKeyExtract supportedAlgs
  rw [extractByAlg_cons]
  refine Safe.ite (fun hoid => ?_) fun h25519 => ?_
  · have hrsa : rsaOid ≠ c.keyInfo.algorithm.algorithm := hoid ▸ by decide
    refine (edExtract_ends env c h (show 0 < 3 by decide)).mono fun r hr => hr.congr ?_
    exact ⟨fun hkeeps => hkeeps.1 (Or.inl hoid),
      fun hkeeps => ⟨fun _ => hkeeps, fun h => absurd h hrsa⟩⟩
  rw [extractByAlg_cons]
  refine Safe.ite (fun hoid => ?_) fun h448 => ?_
  · have hrsa : rsaOid ≠ c.keyInfo.algorithm.algorithm := hoid ▸ by decide
    refine (edExtract_ends env c h (show 1 < 3 by decide)).mono fun r hr => hr.congr ?_
    exact ⟨fun hkeeps => hkeeps.1 (Or.inr hoid),
      fun hkeeps => ⟨fun _ => hkeeps, fun h => absurd h hrsa⟩⟩
  have hed : ¬ (ed25519Oid = c.keyInfo.algorithm.algorithm ∨
      ed448Oid = c.keyInfo.algorithm.algorithm) := not_or.mpr ⟨h25519, h448⟩
  rw [extractByAlg_cons]
  refine Safe.ite (fun hoid => ?_) fun hrsa => ?_
  · apply Safe.mono
    · exact rsaExtract_ends env c hlen h (show 2 < 3 by decide) hstored
    · intro r hr
      apply hr.congr
      exact ⟨fun hkeeps => hkeeps.2 hoid, fun hkeeps => ⟨fun h => absurd h hed, fun _ => hkeeps⟩⟩
  · exact (EndsWell.rejected (by decide) h).ends
      ⟨fun h => absurd h hed, fun h => absurd h hrsa⟩

/-- The certificate's own signature: what was made is handed out or freed. -/
theorem EndsWell.verify {w : World} (h : EndsWell others misuses [] (.certOk, pub, w)) :
    Safe (selfSignVerify env c.encode c.fields pub w) (EndsWell others misuses []) := by
  cases h with
  | rejected hcode h => exact absurd rfl hcode
  | made hready h =>
    rw [selfSignVerify_eq]
    refine Safe.bind (pubKeyVerify_accounts env h hready) ?_
    rintro ⟨ok, w1⟩ h1
    refine Safe.ite (fun _ => ?_) fun _ => ?_
    · exact .made ⟨hready.algIdx, hready.pkey, hready.mdCtx, hready.md⟩ h1
    · refine Safe.bind (pubKeyFree_accounts h1 hready) fun w2 h2 => ?_
      exact .rejected (by decide) h2

/-- A key of others is handed out by it, or freed. -/
theorem EndsBadly.verify {w : World} (h : EndsBadly others misuses [] (.certOk, pub, w)) :
    Safe (selfSignVerify env c.encode c.fields pub w) (EndsBadly others misuses []) := by
  rw [selfSignVerify_eq]
  cases h with
  | leaked key hcode h => exact absurd rfl hcode
  | lost old hcode hold h => exact absurd rfl hcode
  | foreign hready hold h =>
    refine Safe.bind (pubKeyVerify_accounts env h hready) ?_
    rintro ⟨ok, w1⟩ h1
    refine Safe.ite (fun _ => ?_) fun _ => ?_
    · exact .foreign ⟨hready.algIdx, hready.pkey, hready.mdCtx, hready.md⟩ hold h1
    · refine Safe.bind (pubKeyFree_accounts h1 hready) fun w2 h2 => ?_
      apply EndsBadly.lost pub.openssl.pkey.value (by decide) hold
      have hdead := (h2.ledger.live_iff pub.openssl.pkey.value).not
      simpa using hdead
  | misused halg hctx h =>
    refine Safe.bind (pubKeyVerify_misuses_le env _ _ w halg (hctx rfl)) ?_
    rintro ⟨ok, w1⟩ hle
    refine Safe.ite (fun _ => ?_) fun _ => ?_
    · exact .misused halg hctx (Nat.lt_of_lt_of_le h hle)
    · refine Safe.bind (pubKeyFree_safe w1 halg) ?_
      rintro _ rfl
      refine .misused halg (nomatch ·) ?_
      calc misuses.length < w.misuses.length := h
        _ ≤ w1.misuses.length := hle
        _ ≤ (w1.freeField pub.openssl.pkey).misuses.length := World.freeField_misuses_le _ _
        _ ≤ _ := World.freeField_misuses_le _ _

theorem reachesRawKey_iff (now : ℤ) : ReachesRawKey c.encode c.fields now ↔
    selfSignCheck c.encode c.fields now = .ok none ∧
      (ed25519Oid = c.keyInfo.algorithm.algorithm ∨
        ed448Oid = c.keyInfo.algorithm.algorithm) ∧
      c.keyInfo.algorithm.parameters = [] ∧
      c.signatureAlgorithm.encode = c.keyInfo.algorithm.encode := by
  obtain ⟨hsig, hsigEnd⟩ := c.fields_within.sigId
  obtain ⟨hkey, hkeyEnd⟩ := c.fields_within.keyId
  have hmatching : certeq c.encode c.fields.sigIdStart c.fields.sigIdEnd c.fields.pubKeyIdStart
      c.fields.pubKeyIdEnd =
        .ok (decide (c.signatureAlgorithm.encode = c.keyInfo.algorithm.encode)) := by
    rw [certeq_eq hsig hsigEnd hkey hkeyEnd, c.fieldsShow.sigId,
      c.fieldsShow.keyId]
    rfl
  constructor
  · rintro ⟨hadmitted, ⟨size, oid, hoid, hsize, hfound⟩, hbare, hsame⟩
    have halg := (oid_found_iff c oid).mp ⟨size, hsize, hfound⟩
    rw [hmatching] at hsame
    refine ⟨hadmitted, ?_, c.pubKeyOidEnd_eq_iff.mp hbare,
      of_decide_eq_true (Except.ok.inj hsame)⟩
    rcases hoid with rfl | rfl
    · exact Or.inl halg
    · exact Or.inr halg
  · rintro ⟨hadmitted, hoid, hbare, hsame⟩
    refine ⟨hadmitted, ?_, c.pubKeyOidEnd_eq_iff.mpr hbare, ?_⟩
    · rcases hoid with halg | halg
      · obtain ⟨size, hsize, hfound⟩ := (oid_found_iff c ed25519Oid).mpr halg
        exact ⟨size, ed25519Oid, Or.inl rfl, hsize, hfound⟩
      · obtain ⟨size, hsize, hfound⟩ := (oid_found_iff c ed448Oid).mpr halg
        exact ⟨size, ed448Oid, Or.inr rfl, hsize, hfound⟩
    · rw [hmatching, decide_eq_true hsame]

/-- The whole extraction. -/
theorem extract_ends (hlen : c.encode.length < 2 ^ 63) (now : ℤ)
    (h : w.Accounts others [] misuses)
    (hstored : pub.openssl.pkey.written = true → pub.openssl.pkey.value < w.next) :
    Safe (extractSelfSignForCodeSign env c.encode c.fields now pub w)
      (Ends (KeepsOwnership env c.encode c.fields now pub w) others misuses []) := by
  obtain ⟨o, hcheck, hne, -⟩ := (selfSignCheck_safe c now).exists_ok
  unfold extractSelfSignForCodeSign
  rw [hcheck, ok_bind]
  cases o with
  | some code =>
    apply (EndsWell.rejected (fun hcode => hne (congrArg some hcode)) h).ends
    constructor
    · intro hreaches
      have hadmitted := hreaches.admitted
      rw [hcheck] at hadmitted
      cases hadmitted
    · intro hreaches
      have hadmitted := hreaches.admitted
      rw [hcheck] at hadmitted
      cases hadmitted
  | none =>
    have hkeeps : KeepsOwnership env c.encode c.fields now pub w ↔
        ((ed25519Oid = c.keyInfo.algorithm.algorithm ∨
            ed448Oid = c.keyInfo.algorithm.algorithm) →
          c.keyInfo.algorithm.parameters = [] →
            c.signatureAlgorithm.encode = c.keyInfo.algorithm.encode →
              env.succeeds w.calls = true → env.succeeds (w.calls + 1) = true) ∧
          (rsaOid = c.keyInfo.algorithm.algorithm →
            (∃ octets pub', rsaCheck c.encode c.fields { pub with algIdx := 2 } =
              .ok (.inr octets, pub')) →
            (rsaPrepare env w).1 = true → pub.Keeps env w (w.calls + 9)) := by
      constructor
      · rintro ⟨hed, hrsa⟩
        exact ⟨fun hoid hbare hsame =>
            hed ((reachesRawKey_iff c now).mpr ⟨hcheck, hoid, hbare, hsame⟩),
          fun hoid hchecked hprepared =>
            hrsa ((reachesFromdata_iff env c now).mpr ⟨hcheck, hoid, hchecked, hprepared⟩)⟩
      · rintro ⟨hed, hrsa⟩
        constructor
        · intro hreaches
          obtain ⟨-, hoid, hbare, hsame⟩ := (reachesRawKey_iff c now).mp hreaches
          exact hed hoid hbare hsame
        · intro hreaches
          obtain ⟨-, hoid, hchecked, hprepared⟩ := (reachesFromdata_iff env c now).mp hreaches
          exact hrsa hoid hchecked hprepared
    refine Safe.bind (pubKeyExtract_ends env c hlen h hstored) ?_
    rintro ⟨code, pub', w'⟩ hends
    dsimp only
    have hends := hends.congr hkeeps
    refine Safe.ite (fun _ => hends) fun hok => ?_
    obtain rfl : code = .certOk := not_not.mp hok
    by_cases hcond : KeepsOwnership env c.encode c.fields now pub w
    · exact (hends.1 hcond).verify env c |>.mono fun r hr => hr.ends hcond
    · exact (hends.2 hcond).verify env c |>.mono fun r hr => hr.ends hcond

end Ends

/-! ## What is owned -/

variable {w : World} {r : Extraction}

theorem EndsWell.owns (h : EndsWell (fun a => w.live a = true) w.misuses [] r) : Owns w r := by
  cases h with
  | rejected hcode h =>
    have hlive := h.ledger.live_iff
    refine ⟨fun a => ?_, fun a ha => (hlive a).mpr (Or.inl ha), h.misuses_eq⟩
    refine iff_of_false ?_ fun hok => hcode hok.1
    rintro ⟨hbefore, hbehind⟩
    simp [hlive, hbefore] at hbehind
  | @made slot _ hready h =>
    have hlive := h.ledger.live_iff
    refine ⟨fun a => ?_, fun a ha => (hlive a).mpr (Or.inl ha), h.misuses_eq⟩
    dsimp only
    rw [hlive]
    constructor
    · rintro ⟨hbefore, hbehind⟩
      simpa [hbefore, PubKey.handles] using hbehind
    · rintro ⟨-, ha⟩
      have hmem : a ∈ slot.handles ++ [] := by simpa [PubKey.handles] using ha
      exact ⟨by simpa using h.ledger.disjoint a hmem, Or.inr hmem⟩

theorem EndsBadly.not_owns (h : EndsBadly (fun a => w.live a = true) w.misuses [] r) :
    ¬ Owns w r := by
  intro howns
  cases h with
  | leaked key hcode h =>
    have hkey : key ∈ [key] := by simp
    have hbefore : w.live key = false := by simpa using h.ledger.disjoint key hkey
    exact hcode ((howns.left key).mp ⟨hbefore, h.ledger.live_of_mem hkey⟩).1
  | lost old hcode hold h =>
    have hkept := howns.kept old hold
    rw [h] at hkept
    cases hkept
  | foreign hready hold h =>
    have hcreated := ((howns.left _).mpr ⟨rfl, Or.inl rfl⟩).1
    rw [hold] at hcreated
    cases hcreated
  | misused halg hctx h =>
    have honce := congrArg List.length howns.once
    dsimp only at honce
    omega

/-- For every certificate, every slot and all answers of OpenSSL, the extraction leaves what
it hands out and nothing else exactly if no context is refused for a key it has made, and an
RSA certificate comes to a slot that is fit for it. -/
theorem extract_owns_iff (env : OpenSsl) (raw : Bytes) (f fields : X509Fields) (now : ℤ)
    (pub : PubKey) (w : World) (hlen : raw.length < 2 ^ 63)
    (hparse : parseX509 raw f = .ok fields) (hw : w.Issued pub) :
    ∃ r, extractSelfSignForCodeSign env raw fields now pub w = .ok r ∧
      (Owns w r ↔ KeepsOwnership env raw fields now pub w) := by
  obtain ⟨c, rfl, rfl⟩ := (parseX509_ok_iff raw f fields hlen).mp hparse
  have haccounts : w.Accounts (fun a => w.live a = true) [] w.misuses :=
    ⟨Ledger.nil w.live, hw.live, hw.next_pos, rfl⟩
  obtain ⟨r, hr, hends⟩ := (extract_ends env c hlen now haccounts hw.stored).exists_ok
  refine ⟨r, hr, fun howns => ?_, fun hkeeps => (hends.1 hkeeps).owns⟩
  by_contra hnot
  exact (hends.2 hnot).not_owns howns

/-- A slot whose `pkey` member was set to `NULL`. -/
def emptySlot : PubKey :=
  { PubKey.unwritten with openssl := { PubKey.unwritten.openssl with pkey := .store null } }

/-- An RSA certificate for an empty slot. -/
theorem extract_owns_iff_rsa :
    ∃ r, extractSelfSignForCodeSign .accepting (rsaCertificate signingUsage 0).encode
        (rsaCertificate signingUsage 0).fields 0 emptySlot .initial = .ok r ∧
      r.1 = .certOk ∧ Owns .initial r := by
  have hlen : (rsaCertificate signingUsage 0).encode.length < 2 ^ 63 := by decide +kernel
  have hissued : World.initial.Issued emptySlot :=
    ⟨by decide, by simp [World.initial], fun _ => by decide⟩
  obtain ⟨r, hr, hiff⟩ := extract_owns_iff .accepting _ .zero _ 0 emptySlot .initial hlen
    (parseX509_encode _ _ hlen) hissued
  have hcode : (extractSelfSignForCodeSign .accepting (rsaCertificate signingUsage 0).encode
      (rsaCertificate signingUsage 0).fields 0 emptySlot .initial).map Prod.fst =
      .ok .certOk := by
    decide +kernel
  rw [hr] at hcode
  refine ⟨r, hr, Except.ok.inj hcode, hiff.mpr ⟨fun _ _ => rfl, fun _ => ⟨⟨rfl, Or.inl rfl⟩, ?_⟩⟩⟩
  rw [if_pos (show emptySlot.openssl.pkey.value = null from rfl)]
  exact fun _ => rfl

/-- Every call but one succeeds. -/
def OpenSsl.refusing (n : ℕ) : OpenSsl :=
  { OpenSsl.accepting with succeeds := fun k => decide (k ≠ n) }

/-- `EVP_MD_CTX_new` fails behind the raw key of an Ed25519 certificate, and behind
`EVP_PKEY_fromdata`: the key is left. -/
theorem refused_context_leaks :
    (∃ r, extractSelfSignForCodeSign (.refusing 1)
        (ed25519Certificate epoch signingUsage 0).encode
        (ed25519Certificate epoch signingUsage 0).fields 0 .unwritten .initial = .ok r ∧
      ¬ Owns .initial r) ∧
    ∃ r, extractSelfSignForCodeSign (.refusing 10) (rsaCertificate signingUsage 0).encode
        (rsaCertificate signingUsage 0).fields 0 emptySlot .initial = .ok r ∧
      ¬ Owns .initial r := by
  have hleft : ∀ (p : Crypto Extraction) (key : ℕ),
      p.map (fun r => (r.1, r.2.2.live key)) = .ok (.invalidPubKey, true) →
        ∃ r, p = .ok r ∧ ¬ Owns .initial r := by
    intro p key hend
    cases p with
    | error stop => cases hend
    | ok r =>
      obtain ⟨hcode, hlive⟩ := Prod.mk.inj (Except.ok.inj hend)
      refine ⟨r, rfl, fun howns => ?_⟩
      have hok := ((howns.left key).mp ⟨rfl, hlive⟩).1
      rw [hcode] at hok
      cases hok
  exact ⟨hleft _ 1 (by decide +kernel), hleft _ 6 (by decide +kernel)⟩

end X509Server
