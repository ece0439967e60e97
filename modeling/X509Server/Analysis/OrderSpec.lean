import Mathlib.Data.List.Perm.Basic
import X509Server.Analysis.ConstraintSpec

/-!
# The order of the extensions

A certificate whose extension elements are permuted is the encoding of the same certificate
with a permuted list (`Certificate.differAt`), since no enclosing length changes.  The decoded
fields are a fold over the list whose steps commute (`Extension.effect_comm`): two extensions
of a list have different OIDs, and of the five kinds only key usage and extended key usage
write the same word, both by setting bits.  The key identifiers are indices, which move; the
octets they denote are those of the one extension that has them.
-/

set_option autoImplicit false

namespace X509Server

open Checked ByteWindow Der

/-! ## Permuted elements -/

/-- `before` and `behind` are the octets around the extension elements of `c`, with every
length that encloses them. -/
structure Surrounds (c : Certificate) (before behind : Bytes) : Prop where
  split : c.encode = before ++ ((c.extensions.map Extension.encode).flatten ++ behind)
  place : c.extensions ≠ [] → before.length = c.tbsCertificate.firstExtension c.tbsStart

/-- Two results agree up to the places of the key identifiers, whose octets agree. -/
structure SameDecoding (raw raw' : Bytes) (f f' : X509Fields) : Prop where
  keyCertSign : f'.keyCertSign = f.keyCertSign
  pathLenConstraint : f'.pathLenConstraint = f.pathLenConstraint
  hasKeyUsage : f'.hasKeyUsage = f.hasKeyUsage
  hasExtKeyUsage : f'.hasExtKeyUsage = f.hasExtKeyUsage
  keyUsageFlags : f'.keyUsageFlags = f.keyUsageFlags
  /-- Times and ranges: every field that no extension writes. -/
  others : f'.withExtensionsOf f = f
  skid : f'.skidStart = idxNone ↔ f.skidStart = idxNone
  skidOctets : window raw' f'.skidStart f'.skidEnd = window raw f.skidStart f.skidEnd
  akid : f'.akidStart = idxNone ↔ f.akidStart = idxNone
  akidOctets : window raw' f'.akidStart f'.akidEnd = window raw f.akidStart f.akidEnd

/-! ## Octets that differ in one place -/

/-- `x` and `x'` are alike, but for `e` at `place` of the one and `e'` of the other. -/
def DifferAt (e e' : Bytes) (place : ℕ) (x x' : Bytes) : Prop :=
  ∃ before behind, before.length = place ∧ x = before ++ (e ++ behind) ∧
    x' = before ++ (e' ++ behind)

section DifferAt

variable {e e' x x' : Bytes} {place : ℕ}

theorem DifferAt.refl (e e' : Bytes) : DifferAt e e' 0 e e' :=
  ⟨[], [], rfl, by simp, by simp⟩

theorem DifferAt.append_left (h : DifferAt e e' place x x') (s : Bytes) :
    DifferAt e e' (s.length + place) (s ++ x) (s ++ x') := by
  obtain ⟨before, behind, hplace, rfl, rfl⟩ := h
  exact ⟨s ++ before, behind, by simp [hplace], by simp, by simp⟩

theorem DifferAt.append_right (h : DifferAt e e' place x x') (s : Bytes) :
    DifferAt e e' place (x ++ s) (x' ++ s) := by
  obtain ⟨before, behind, hplace, rfl, rfl⟩ := h
  exact ⟨before, behind ++ s, hplace, by simp, by simp⟩

theorem DifferAt.length_eq (h : DifferAt e e' place x x') (he : e'.length = e.length) :
    x'.length = x.length := by
  obtain ⟨before, behind, -, rfl, rfl⟩ := h
  simp only [List.length_append, he]

/-- The header of an element does not depend on what its content is. -/
theorem DifferAt.tlv (h : DifferAt e e' place x x') (he : e'.length = e.length)
    (identifier : UInt8) :
    DifferAt e e' (headerLength x + place) (tlv identifier x) (tlv identifier x') := by
  have hlen := h.length_eq he
  have hheader := h.append_left (identifier :: lengthOctets x.length)
  rw [Der.tlv, Der.tlv, hlen]
  simpa [headerLength, Nat.add_comm] using hheader

end DifferAt

theorem headerLength_congr {x x' : Bytes} (h : x'.length = x.length) :
    headerLength x' = headerLength x := by
  rw [headerLength, headerLength, h]

/-- The certificate with another list of extensions. -/
def Certificate.withExtensions (c : Certificate) (l : ExtensionList) : Certificate :=
  { c with tbsCertificate := { c.tbsCertificate with extensions := some l } }

section WithExtensions

variable (c : Certificate) {l l' : ExtensionList}

/-- Extensions of the same length leave the positions outside of them alone. -/
theorem TbsCertificate.differAt (t : TbsCertificate) (h : t.extensions = some l)
    (hlen : (encodeExtensions l'.extensions).length = (encodeExtensions l.extensions).length) :
    ∃ place, (∀ start, start + headerLength t.content + place = t.firstExtension start) ∧
      DifferAt (encodeExtensions l.extensions) (encodeExtensions l'.extensions) place
        t.content { t with extensions := some l' }.content := by
  have hlist := ((DifferAt.refl (encodeExtensions l.extensions)
    (encodeExtensions l'.extensions)).tlv hlen derSequence).tlv hlen derExplicit3
  have hwhole := (((((((((hlist.append_left (optionalElement derImplicit2
    t.subjectUniqueId)).append_left (optionalElement derImplicit1 t.issuerUniqueId)).append_left
    t.subjectPublicKeyInfo.encode).append_left t.subject.encode).append_left
    t.encodeValidity).append_left t.issuer.encode).append_left t.signature.encode).append_left
    (Der.tlv derInteger t.serialNumber)).append_left encodeVersion)
  obtain ⟨before, behind, hplace, hx, hx'⟩ := hwhole
  refine ⟨before.length, ?_, before, behind, rfl, ?_, ?_⟩
  · intro start
    rw [hplace]
    simp only [firstExtension, firstMember, extensionMembers, h, extensionsStart, keyEnd,
      keyInfoStart, sigId, AlgorithmIdentifier.at_idEnd, serialEnd, serialStart, length_tlv]
    omega
  · rw [content, h]
    exact hx
  · rw [content]
    exact hx'

/-- The octets of the certificate with another list of the same length. -/
theorem Certificate.differAt (h : c.tbsCertificate.extensions = some l)
    (hlen : (encodeExtensions l'.extensions).length = (encodeExtensions l.extensions).length) :
    DifferAt (encodeExtensions l.extensions) (encodeExtensions l'.extensions)
      (c.tbsCertificate.firstExtension c.tbsStart) c.encode (c.withExtensions l').encode := by
  obtain ⟨place, hplace, hdiffer⟩ := c.tbsCertificate.differAt h hlen
  have hwhole := ((hdiffer.tlv hlen derSequence).append_right
    (c.tbsCertificate.signature.encode ++ encodeBitstring c.signatureValue)).tlv hlen derSequence
  rw [← hplace c.tbsStart, Nat.add_assoc]
  exact hwhole

/-- The positions outside of the extensions are the same. -/
theorem Certificate.baseFields_withExtensions (h : c.tbsCertificate.extensions = some l)
    (hlen : (encodeExtensions l'.extensions).length = (encodeExtensions l.extensions).length) :
    (c.withExtensions l').tbsCertificate.baseFields (c.withExtensions l').tbsStart
        (c.withExtensions l').sigStart (c.withExtensions l').encode.length =
      c.tbsCertificate.baseFields c.tbsStart c.sigStart c.encode.length := by
  obtain ⟨place, -, hdiffer⟩ := c.tbsCertificate.differAt h hlen
  have htbs : (c.withExtensions l').tbsCertificate.content.length =
      c.tbsCertificate.content.length := hdiffer.length_eq hlen
  have hcontent : (c.withExtensions l').content.length = c.content.length :=
    ((hdiffer.tlv hlen derSequence).append_right _).length_eq hlen
  have hencode := (c.differAt h hlen).length_eq hlen
  have hstart : (c.withExtensions l').tbsStart = c.tbsStart := headerLength_congr hcontent
  have hsig : (c.withExtensions l').sigStart = c.sigStart := by
    rw [Certificate.sigStart, hencode]
    rfl
  have hserial : ∀ start, (c.withExtensions l').tbsCertificate.serialStart start =
      c.tbsCertificate.serialStart start := by
    intro start
    rw [TbsCertificate.serialStart, headerLength_congr htbs]
    rfl
  have htbsEncode : (c.withExtensions l').tbsCertificate.encode.length =
      c.tbsCertificate.encode.length := by
    rw [TbsCertificate.encode, TbsCertificate.encode, length_tlv, length_tlv,
      headerLength_congr htbs, htbs]
  rw [hstart, hsig, hencode]
  simp only [TbsCertificate.baseFields, TbsCertificate.sigId, TbsCertificate.keyId,
    TbsCertificate.keyStart, TbsCertificate.keyEnd, TbsCertificate.keyInfoStart,
    TbsCertificate.serialEnd, hserial, htbsEncode]
  rfl

/-- Apart from what the extensions write, the fields are the same. -/
theorem Certificate.fields_withExtensions (h : c.tbsCertificate.extensions = some l)
    (hlen : (encodeExtensions l'.extensions).length = (encodeExtensions l.extensions).length) :
    (c.withExtensions l').fields.withExtensionsOf c.fields = c.fields := by
  conv_rhs => rw [c.fields_eq, ← c.baseFields_withExtensions h hlen]
  conv_lhs => rw [(c.withExtensions l').fields_eq]
  rfl

end WithExtensions

/-! ## Effects that commute -/

/-- What the extensions are decoded to, without the key identifiers. -/
structure Decoded where
  keyCertSign : Bool
  pathLenConstraint : UInt32
  hasKeyUsage : Bool
  hasExtKeyUsage : Bool
  keyUsageFlags : UInt32

def X509Fields.decoded (f : X509Fields) : Decoded :=
  ⟨f.keyCertSign, f.pathLenConstraint, f.hasKeyUsage, f.hasExtKeyUsage, f.keyUsageFlags⟩

/-- The effect of an extension, wherever it stands. -/
def Extension.effect (x : Extension) (d : Decoded) : Decoded :=
  match x with
  | .basicConstraints .notCa => { d with keyCertSign := false }
  | .basicConstraints (.ca o) =>
    { d with keyCertSign := true, pathLenConstraint := pathLenValue o d.pathLenConstraint }
  | .keyUsage _ body =>
    { d with hasKeyUsage := true, keyUsageFlags := d.keyUsageFlags ||| body.flags }
  | .extKeyUsage _ purposes =>
    { d with hasExtKeyUsage := true, keyUsageFlags := purposeFlags purposes d.keyUsageFlags }
  | _ => d

theorem Extension.decoded_apply (x : Extension) (start : ℕ) (f : X509Fields) :
    (x.apply start f).decoded = x.effect f.decoded := by
  cases x with
  | basicConstraints body =>
    cases body with
    | notCa => rfl
    | ca o => cases o <;> rfl
  | authorityKeyIdentifier body =>
    obtain ⟨id, issuer, serial⟩ := body
    cases id <;> rfl
  | _ => rfl

theorem applyExtensions_decoded (xs : List Extension) (start : ℕ) (f : X509Fields) :
    (applyExtensions xs start f).decoded = xs.foldl (fun d x => x.effect d) f.decoded := by
  induction xs generalizing start f with
  | nil => rfl
  | cons x xs ih => rw [applyExtensions, ih, x.decoded_apply, List.foldl_cons]

/-- Bits that are set beforehand are set afterwards. -/
theorem purposeFlags_or (purposes : List Bytes) (flags other : UInt32) :
    purposeFlags purposes (flags ||| other) = purposeFlags purposes flags ||| other := by
  unfold purposeFlags
  induction purposes generalizing flags with
  | nil => rfl
  | cons p ps ih =>
    rw [List.foldl_cons, List.foldl_cons, ← ih, UInt32.or_assoc, UInt32.or_assoc,
      UInt32.or_comm other]

/-- Extensions with different OIDs may be applied in either order. -/
theorem Extension.effect_comm {x y : Extension} (h : x.oid ≠ y.oid) (d : Decoded) :
    y.effect (x.effect d) = x.effect (y.effect d) := by
  cases x with
  | basicConstraints body =>
    cases y with
    | basicConstraints body' => exact absurd rfl h
    | _ => cases body <;> rfl
  | keyUsage critical body =>
    cases y with
    | basicConstraints body' => cases body' <;> rfl
    | keyUsage critical' body' => exact absurd rfl h
    | extKeyUsage critical' purposes =>
      simp only [effect, purposeFlags_or]
    | _ => rfl
  | extKeyUsage critical purposes =>
    cases y with
    | basicConstraints body' => cases body' <;> rfl
    | keyUsage critical' body =>
      simp only [effect, purposeFlags_or]
    | extKeyUsage critical' purposes' => exact absurd rfl h
    | _ => rfl
  | _ => rfl

/-- A list with distinct OIDs may be applied in any order. -/
theorem foldl_effect_perm {xs ys : List Extension} (hperm : xs.Perm ys)
    (hnodup : (xs.map Extension.oid).Nodup) (d : Decoded) :
    xs.foldl (fun d x => x.effect d) d = ys.foldl (fun d x => x.effect d) d := by
  apply hperm.foldl_eq'
  intro x hx y hy z
  by_cases hoid : x.oid = y.oid
  · rw [List.inj_on_of_nodup_map hnodup hx hy hoid]
  · exact Extension.effect_comm hoid z

/-! ## Key identifiers -/

/-- The range `[start, contentEnd)` stands for `o`: it is absent, or shows these octets. -/
structure RangeShows (raw : Bytes) (start contentEnd : ℕ) (o : Option Bytes) : Prop where
  absent : start = idxNone ↔ o = none
  octets : window raw start contentEnd = o.getD []

theorem rangeShows_none {raw : Bytes} {start contentEnd : ℕ} (hs : start = idxNone)
    (he : contentEnd = idxNone) : RangeShows raw start contentEnd none := by
  refine ⟨by simp [hs], ?_⟩
  rw [hs, he]
  exact window_eq_nil le_rfl

theorem rangeShows_some {raw bs : Bytes} {start contentEnd : ℕ} (hs : 0 < start)
    (hw : window raw start contentEnd = bs) : RangeShows raw start contentEnd (some bs) := by
  refine ⟨?_, hw⟩
  constructor
  · intro hzero
    rw [hzero] at hs
    exact absurd hs (by decide)
  · intro hnone
    cases hnone

namespace Certificate

variable (c : Certificate)

/-- The subject key identifier is that of the extension that has one. -/
theorem skid_shows : ∃ o, (∀ body, o = some body ↔
      .subjectKeyIdentifier body ∈ c.extensions) ∧
    RangeShows c.encode c.fields.skidStart c.fields.skidEnd o := by
  rcases c.tbsCertificate.skid_cases c.tbsStart c.sigStart c.encode.length with
    ⟨hnone, hs, he⟩ | ⟨body, hbody, hs, -, -, hw⟩
  · refine ⟨none, ?_, rangeShows_none hs he⟩
    intro body
    constructor
    · intro hsome
      cases hsome
    · intro hbody
      exact absurd rfl (hnone _ hbody)
  · refine ⟨some body, ?_, rangeShows_some (Nat.zero_lt_of_lt hs) (hw c.encode c.standsAt)⟩
    intro body'
    constructor
    · rintro ⟨⟩
      exact hbody
    · intro hbody'
      have hsame := List.inj_on_of_nodup_map c.tbsCertificate.nodup_oids hbody hbody' rfl
      cases hsame
      rfl

/-- The authority key identifier is that of the extension that has one. -/
theorem akid_shows : ∃ o, (∀ id, o = some id ↔
      ∃ body, .authorityKeyIdentifier body ∈ c.extensions ∧ body.keyIdentifier = some id) ∧
    RangeShows c.encode c.fields.akidStart c.fields.akidEnd o := by
  rcases c.tbsCertificate.akid_cases c.tbsStart c.sigStart c.encode.length with
    ⟨hnone, hs, he⟩ | ⟨body, id, hbody, hid, hs, -, -, hw⟩
  · refine ⟨none, ?_, rangeShows_none hs he⟩
    intro id
    constructor
    · intro hsome
      cases hsome
    · rintro ⟨body, hbody, hid⟩
      rw [hnone body hbody] at hid
      cases hid
  · refine ⟨some id, ?_, rangeShows_some (Nat.zero_lt_of_lt hs) (hw c.encode c.standsAt)⟩
    intro id'
    constructor
    · rintro ⟨⟩
      exact ⟨body, hbody, hid⟩
    · rintro ⟨body', hbody', hid'⟩
      have hsame := List.inj_on_of_nodup_map c.tbsCertificate.nodup_oids hbody hbody' rfl
      cases hsame
      rw [← hid, hid']

end Certificate

/-! ## Reordered certificates -/

/-- A permutation of mapped elements comes from a permutation of the elements. -/
theorem exists_perm_of_perm_map {α β : Type} {f : α → β} {ys : List β} {xs : List α}
    (h : ys.Perm (xs.map f)) : ∃ zs : List α, ys = zs.map f ∧ zs.Perm xs := by
  have hcomp := congrFun (congrFun (List.eq_map_comp_perm f) ys) xs
  rw [← hcomp] at h
  exact h

/-- Permuted elements are the encodings of a permuted list, which is a list of extensions
again. -/
theorem ExtensionList.exists_perm (l : ExtensionList) {elements : List Bytes}
    (h : elements.Perm (l.extensions.map Extension.encode)) :
    ∃ l' : ExtensionList, l'.extensions.Perm l.extensions ∧
      elements.flatten = encodeExtensions l'.extensions := by
  obtain ⟨xs, rfl, hperm⟩ := exists_perm_of_perm_map h
  refine ⟨⟨xs, ?_, ?_⟩, hperm, ?_⟩
  · rw [hperm.length_eq]
    exact l.length_le
  · exact (hperm.map Extension.oid).nodup_iff.mpr l.nodup
  · rw [encodeExtensions, List.flatMap_def]

theorem length_encodeExtensions_perm {xs ys : List Extension} (h : xs.Perm ys) :
    (encodeExtensions xs).length = (encodeExtensions ys).length :=
  (h.flatMap_right Extension.encode).length_eq

/-- A certificate with an extension has a list of them. -/
theorem Certificate.exists_list (c : Certificate) (h : c.extensions ≠ []) :
    ∃ l, c.tbsCertificate.extensions = some l ∧ c.extensions = l.extensions := by
  unfold extensions TbsCertificate.extensionList at *
  cases hl : c.tbsCertificate.extensions with
  | none =>
    rw [hl] at h
    exact absurd rfl h
  | some l => exact ⟨l, rfl, rfl⟩

/-- The results for two certificates that differ in the order of their extensions. -/
theorem Certificate.sameDecoding (c : Certificate) {l l' : ExtensionList}
    (h : c.tbsCertificate.extensions = some l) (hperm : l'.extensions.Perm l.extensions)
    (hlen : (encodeExtensions l'.extensions).length = (encodeExtensions l.extensions).length) :
    SameDecoding c.encode (c.withExtensions l').encode c.fields (c.withExtensions l').fields := by
  have hlist : c.extensions = l.extensions := by
    rw [extensions, TbsCertificate.extensionList, h]
    rfl
  have hmem : ∀ x, x ∈ (c.withExtensions l').extensions ↔ x ∈ c.extensions := by
    intro x
    rw [hlist]
    exact hperm.mem_iff
  have hdecoded : (c.withExtensions l').fields.decoded = c.fields.decoded := by
    have hleft : (c.withExtensions l').fields.decoded = l'.extensions.foldl _ _ :=
      applyExtensions_decoded _ _ _
    have hright : c.fields.decoded = c.extensions.foldl _ _ := applyExtensions_decoded _ _ _
    rw [hleft, hright, c.baseFields_withExtensions h hlen, hlist]
    exact foldl_effect_perm hperm l'.nodup _
  obtain ⟨skid, hskid, hskidShows⟩ := c.skid_shows
  obtain ⟨skid', hskid', hskidShows'⟩ := (c.withExtensions l').skid_shows
  obtain ⟨akid, hakid, hakidShows⟩ := c.akid_shows
  obtain ⟨akid', hakid', hakidShows'⟩ := (c.withExtensions l').akid_shows
  have hsameSkid : skid' = skid := by
    apply Option.ext
    intro body
    rw [hskid, hskid', hmem]
  have hsameAkid : akid' = akid := by
    apply Option.ext
    intro id
    simp only [hakid, hakid', hmem]
  subst hsameSkid hsameAkid
  exact
    { keyCertSign := congrArg Decoded.keyCertSign hdecoded
      pathLenConstraint := congrArg Decoded.pathLenConstraint hdecoded
      hasKeyUsage := congrArg Decoded.hasKeyUsage hdecoded
      hasExtKeyUsage := congrArg Decoded.hasExtKeyUsage hdecoded
      keyUsageFlags := congrArg Decoded.keyUsageFlags hdecoded
      others := c.fields_withExtensions h hlen
      skid := hskidShows'.absent.trans hskidShows.absent.symm
      skidOctets := hskidShows'.octets.trans hskidShows.octets.symm
      akid := hakidShows'.absent.trans hakidShows.absent.symm
      akidOctets := hakidShows'.octets.trans hakidShows.octets.symm }

theorem sameDecoding_refl (raw : Bytes) (f : X509Fields) : SameDecoding raw raw f f :=
  ⟨rfl, rfl, rfl, rfl, rfl, rfl, Iff.rfl, rfl, Iff.rfl, rfl⟩

/-- The order of the extensions does not matter: with its extension elements permuted, and
everything around them as it was, an accepted certificate is accepted with the same
decoding. -/
theorem accepted_reordered (raw : Bytes) (f₀ f₁ f : X509Fields) (hraw : raw.length < 2 ^ 63)
    (hok : parseX509 raw f₀ = .ok f) :
    (∃ c : Certificate, c.encode = raw) ∧ ∀ c : Certificate, c.encode = raw →
      ∃ before behind, Surrounds c before behind ∧
        ∀ elements : List Bytes, elements.Perm (c.extensions.map Extension.encode) →
          ∃ f', parseX509 (before ++ (elements.flatten ++ behind)) f₁ = .ok f' ∧
            SameDecoding raw (before ++ (elements.flatten ++ behind)) f f' := by
  refine ⟨(parseX509_accepts_iff raw f₀ hraw).mp ⟨f, hok⟩, ?_⟩
  rintro c rfl
  rw [parseX509_encode c f₀ hraw] at hok
  obtain rfl := Except.ok.inj hok
  by_cases hne : c.extensions = []
  · -- nothing to permute
    refine ⟨c.encode, [], ⟨by simp [hne], fun h => absurd hne h⟩, ?_⟩
    intro elements hperm
    rw [hne] at hperm
    have hsame : c.encode ++ (elements.flatten ++ []) = c.encode := by
      rw [hperm.eq_nil]
      simp
    rw [hsame]
    exact ⟨c.fields, parseX509_encode c f₁ hraw, sameDecoding_refl _ _⟩
  · obtain ⟨l, hl, hlist⟩ := c.exists_list hne
    obtain ⟨before, behind, hplace, hencode, -⟩ := c.differAt hl rfl
    rw [encodeExtensions, List.flatMap_def, ← hlist] at hencode
    refine ⟨before, behind, ⟨hencode, fun _ => hplace⟩, ?_⟩
    intro elements hperm
    rw [hlist] at hperm
    obtain ⟨l', hperm', hflatten⟩ := l.exists_perm hperm
    have hlen := length_encodeExtensions_perm hperm'
    obtain ⟨before', behind', hplace', hsplit, hsplit'⟩ := c.differAt hl hlen
    -- the two ways to cut the certificate in front of the extensions are one
    obtain ⟨hbefore, hrest⟩ := List.append_inj (hencode.symm.trans hsplit)
      (hplace.trans hplace'.symm)
    rw [encodeExtensions, List.flatMap_def, ← hlist] at hrest
    have hbehind : behind = behind' := List.append_cancel_left hrest
    rw [hbefore, hbehind, hflatten, ← hsplit']
    refine ⟨_, parseX509_encode _ f₁ ?_, c.sameDecoding hl hperm' hlen⟩
    rw [(c.differAt hl hlen).length_eq hlen]
    exact hraw

/-- A code signing certificate, whose three extensions are reversed. -/
theorem accepted_reordered_reverse :
    let c := ed25519Certificate epoch signingUsage 0
    let elements := (c.extensions.map Extension.encode).reverse
    ∃ before behind, Surrounds c before behind ∧
      ∃ f', parseX509 (before ++ (elements.flatten ++ behind)) c.fields = .ok f' ∧
        SameDecoding c.encode (before ++ (elements.flatten ++ behind)) c.fields f' := by
  intro c elements
  have h := accepted_reordered c.encode c.fields c.fields c.fields (by decide +kernel)
    (by decide +kernel)
  obtain ⟨before, behind, hsurrounds, hall⟩ := h.2 c rfl
  exact ⟨before, behind, hsurrounds, hall elements (List.reverse_perm _)⟩

end X509Server
