import Atlas.Document
import Atlas.KeyedTable
import Atlas.Store

/-!
# What is shared

Whether a cached blob is shared to the mesh is decided from four tables: the imported
manifests, their artifacts, the cache and the user's choices. Gated or restrictively
licensed content needs a confirmation; everything else follows the user's choice, or is
shared by default when it is public.

Which manifests a blob belongs to is found by comparing digests as texts, BLAKE3 and
SHA-256 only. `gated_share_confirmed_iff` says exactly when a blob of a gated manifest
is shared with a standing confirmation only: when some gated manifest names it in the
cache's own spelling, or nothing else shares it.
-/

namespace Atlas

open Text

/-! ## Manifests -/

namespace DocumentBody

variable (m : DocumentBody)

/-- Obtaining this model is access-controlled: it is marked gated, or a source needs a token. -/
def isGated : Bool :=
  m.access.gated || m.artifacts.any fun a => a.sources.any fun s => s.auth = .token

/-- The license class explicitly forbids public redistribution, as two of the four do. -/
def isRestrictive : Bool :=
  m.license.redistribution = .gatedNoRedistribution ||
    m.license.redistribution = .enterprisePrivate

/-- This model came from the public ecosystem. A content link is only as trustworthy as
the license it vouched for. -/
def hasPublicProvenance : Bool :=
  let pid := m.publisher.id
  if "hf:".toList.isPrefixOf pid then true
  else if pid = "p2p".toList then m.license.redistribution = .publicP2pAllowed
  else m.artifacts.any fun a => a.sources.any fun s =>
    s.auth = .none && [SourceClass.huggingface, .httpsMirror, .iroh].contains s.sourceClass

/-- Seeded to the public mesh by default: public by its provenance, and not gated unless the
user includes such models. -/
def autoShareable (includeGated : Bool) : Bool :=
  if !m.hasPublicProvenance then false
  else includeGated || (!m.isGated && !m.isRestrictive)

/-- The classes that need a confirmation before they are shared: those that are gated, and
those whose license is restrictive. -/
def needsConfirmation : Bool := m.isGated || m.isRestrictive

end DocumentBody

/-! ## Tables -/

/-- A row of `artifacts`: which manifest declares which digests, for the joins that sharing
is decided by. -/
structure ArtifactRow where
  manifestId : Text
  blake3 : Text
  sha256 : Text
  deriving DecidableEq, Repr

/-- A row of `share_overrides`: an explicit choice to deviate from the default. -/
structure ShareOverride where
  sha256 : Text
  shared : Bool
  confirmedGated : Bool
  deriving DecidableEq, Repr

/-- The tables that sharing is decided from, and the one setting that bears on it. -/
structure ShareDb where
  /-- The imported manifests, by id. -/
  manifests : AList fun _ : Text => Document
  artifacts : List ArtifactRow
  cacheBlobs : List CacheBlob
  /-- The choices, by BLAKE3. -/
  overrides : AList fun _ : Text => ShareOverride
  /-- Share gated public models automatically. -/
  shareGated : Bool

namespace ShareDb

/-- No manifest, no blob and no choice, as after a fresh installation. -/
def empty : ShareDb := ⟨∅, [], [], ∅, false⟩

/-- Store a manifest, and its artifacts in place of those it had. -/
def insertManifest (m : Document) (db : ShareDb) : ShareDb :=
  { db with
    manifests := db.manifests.insert m.manifestId m
    artifacts := (db.artifacts.filter fun a => a.manifestId ≠ m.manifestId) ++
      m.artifacts.map fun a => ⟨m.manifestId, a.hashes.blake3, a.hashes.sha256⟩ }

/-- Forget a manifest; its artifacts go with it, and the blobs stay. -/
def deleteManifest (manifestId : Text) (db : ShareDb) : ShareDb :=
  { db with
    manifests := db.manifests.erase manifestId
    artifacts := db.artifacts.filter fun a => a.manifestId ≠ manifestId }

/-- Put a blob on record, or what is new about it; a later import never drops a digest that
an earlier one has supplied. -/
def upsertCacheBlob (m : BlobMeta) (db : ShareDb) : ShareDb :=
  { db with cacheBlobs := Db.upsertCacheBlob m db.cacheBlobs }

/-- Forget a blob, and the choice about it, so that a later download starts from the default. -/
def deleteCacheBlob (blake3 : Text) (db : ShareDb) : ShareDb :=
  { db with
    cacheBlobs := Db.deleteCacheBlob blake3 db.cacheBlobs
    overrides := db.overrides.erase blake3 }

/-- Record an explicit choice. A confirmation stays as it is. -/
def setShareOverride (blake3 sha256 : Text) (shared : Bool) (db : ShareDb) : ShareDb :=
  let confirmed := ((db.overrides.lookup blake3).map ShareOverride.confirmedGated).getD false
  { db with overrides := db.overrides.insert blake3 ⟨sha256, shared, confirmed⟩ }

/-- Record an explicit confirmation to share a gated blob, which also records that it is shared. -/
def confirmGatedShare (blake3 sha256 : Text) (db : ShareDb) : ShareDb :=
  { db with overrides := db.overrides.insert blake3 ⟨sha256, true, true⟩ }

/-- Revoke every confirmed share at once; a choice that was never a confirmation stays. -/
def clearAllGatedConfirmations (db : ShareDb) : ShareDb :=
  { db with
    overrides := db.overrides.filterMapVal fun _ o =>
      some (if o.confirmedGated then { o with shared := false, confirmedGated := false } else o) }

/-- Switch the sharing of gated models, for all of them; the choices and the confirmations
of single blobs stay as they are. -/
def setShareGated (on : Bool) (db : ShareDb) : ShareDb := { db with shareGated := on }

/-! ## The decision -/

variable (db : ShareDb) (blake3 : Text)

/-- The user's explicit choice, if any, for the blob. -/
def shareOverride : Option Bool := (db.overrides.lookup blake3).map ShareOverride.shared

/-- Whether the user has confirmed sharing this blob, which a gated one needs. -/
def isGatedShareConfirmed : Bool :=
  ((db.overrides.lookup blake3).map ShareOverride.confirmedGated).getD false

/-- The SHA-256 of a cached blob, as its row has it, or the empty text when there is no row,
or the row has none. -/
def cachedSha256 : Text :=
  ((db.cacheBlobs.find? fun row => row.blake3 = blake3).map CacheBlob.sha256).getD []

/-- The manifests with an artifact that has a blob's digests, once for each such artifact. -/
def manifestsOf : List Document :=
  (db.artifacts.filter fun a =>
    a.blake3 = blake3 ∨ (db.cachedSha256 blake3 ≠ [] ∧ a.sha256 = db.cachedSha256 blake3)).filterMap
      fun a => db.manifests.lookup a.manifestId

/-- Whether any manifest that contains the blob needs a confirmation, going over all
manifests that name it by either digest. -/
def blobIsGatedOrRestrictive : Bool :=
  (db.manifestsOf blake3).any fun m => m.needsConfirmation

/-- Whether the blob has a manifest, whether any is gated, and whether any is shared by default. -/
def blobProvenance : Bool × Bool × Bool :=
  let manifests := db.manifestsOf blake3
  if manifests.isEmpty then (false, false, false)
  else (true, manifests.any fun m => m.isGated,
    manifests.any fun m => m.autoShareable db.shareGated)

/-- Whether a blob is shared to the mesh: a gated one by confirmation only, any other by
choice or by default. -/
def isBlobShareable : Bool :=
  -- gated content is shared only after a confirmation; an explicit stop still wins
  if db.blobIsGatedOrRestrictive blake3 then
    if db.shareOverride blake3 = some false then false
    else db.isGatedShareConfirmed blake3
  else match db.shareOverride blake3 with
    | some forced => forced
    | none => (db.blobProvenance blake3).2.2

end ShareDb

/-! ## Runs -/

/-- What happens to the tables: manifests and blobs come and go, and the user decides. -/
inductive ShareOp where
  | insertManifest (m : Document)
  | deleteManifest (manifestId : Text)
  | upsertCacheBlob (m : BlobMeta)
  | deleteCacheBlob (blake3 : Text)
  | setShareOverride (blake3 sha256 : Text) (shared : Bool)
  | confirmGatedShare (blake3 sha256 : Text)
  | clearAllGatedConfirmations
  | setShareGated (on : Bool)

namespace ShareOp

/-- What an operation leaves of the tables, each in one transaction. -/
def apply (db : ShareDb) : ShareOp → ShareDb
  | insertManifest m => db.insertManifest m
  | deleteManifest id => db.deleteManifest id
  | upsertCacheBlob m => db.upsertCacheBlob m
  | deleteCacheBlob blake3 => db.deleteCacheBlob blake3
  | setShareOverride blake3 sha256 shared => db.setShareOverride blake3 sha256 shared
  | confirmGatedShare blake3 sha256 => db.confirmGatedShare blake3 sha256
  | clearAllGatedConfirmations => db.clearAllGatedConfirmations
  | setShareGated on => db.setShareGated on

/-- The operation takes back a confirmation for a blob, if there is one. -/
def Revokes (blake3 : Text) : ShareOp → Prop
  | clearAllGatedConfirmations => True
  | deleteCacheBlob b => b = blake3
  | _ => False

instance (blake3 : Text) (op : ShareOp) : Decidable (op.Revokes blake3) := by
  cases op <;> unfold Revokes <;> infer_instance

end ShareOp

/-- The tables after some operations, from a fresh installation. -/
def ShareDb.run (ops : List ShareOp) : ShareDb := ops.foldl ShareOp.apply .empty

/-- **A confirmation stands**: one was given for the blob, and nothing after it took it back. -/
def Standing (ops : List ShareOp) (blake3 : Text) : Prop :=
  ∃ earlier sha256 later, ops = earlier ++ .confirmGatedShare blake3 sha256 :: later ∧
    ∀ op ∈ later, ¬ op.Revokes blake3

/-- What one more operation does to a confirmation. -/
theorem standing_append {ops : List ShareOp} {op : ShareOp} {blake3 : Text} :
    Standing (ops ++ [op]) blake3 ↔
      (∃ sha256, op = .confirmGatedShare blake3 sha256) ∨
        (Standing ops blake3 ∧ ¬ op.Revokes blake3) := by
  constructor
  · rintro ⟨earlier, sha256, later, heq, hlater⟩
    obtain rfl | ⟨later, last, rfl⟩ := List.eq_nil_or_concat later
    · exact Or.inl ⟨sha256, List.singleton_inj.mp (List.append_inj' heq rfl).2⟩
    · rw [List.concat_eq_append] at heq hlater
      rw [← List.cons_append, ← List.append_assoc] at heq
      obtain ⟨hops, hop⟩ := List.append_inj' heq rfl
      obtain rfl := List.singleton_inj.mp hop
      exact Or.inr ⟨⟨earlier, sha256, later, hops, fun o ho =>
        hlater o (List.mem_append_left _ ho)⟩,
        hlater op (List.mem_append_right _ (List.mem_singleton_self op))⟩
  · rintro (⟨sha256, rfl⟩ | ⟨⟨earlier, sha256, later, rfl, hlater⟩, hop⟩)
    · exact ⟨ops, sha256, [], rfl, fun o ho => nomatch ho⟩
    · refine ⟨earlier, sha256, later ++ [op], by simp, fun o ho => ?_⟩
      obtain ho | ho := List.mem_append.mp ho
      · exact hlater o ho
      · rw [List.mem_singleton.mp ho]
        exact hop

/-! ## What a run keeps -/

namespace ShareDb

/-- A manifest is imported, and is the one stored under its id. -/
def Imported (db : ShareDb) (m : Document) : Prop := db.manifests.lookup m.manifestId = some m

/-- **The tables belong together**: a manifest is under its own id, and the artifacts are
those of the imported manifests. -/
structure Joined (db : ShareDb) : Prop where
  key : ∀ id m, db.manifests.lookup id = some m → m.manifestId = id
  rows : ∀ a, a ∈ db.artifacts ↔ ∃ m, db.manifests.lookup a.manifestId = some m ∧
    ∃ x ∈ m.artifacts, a = ⟨m.manifestId, x.hashes.blake3, x.hashes.sha256⟩

theorem joined_empty : Joined empty where
  key _ _ h := nomatch h
  rows a := by
    constructor
    · intro h
      cases h
    · rintro ⟨m, h, -⟩
      cases h

theorem Joined.insertManifest {db : ShareDb} (h : db.Joined) (m : Document) :
    (db.insertManifest m).Joined where
  key id m' hlookup := by
    replace hlookup : (db.manifests.insert m.manifestId m).lookup id = some m' := hlookup
    by_cases hid : id = m.manifestId
    · rw [hid, AList.lookup_insert] at hlookup
      rw [hid, Option.some.inj hlookup]
    · rw [AList.lookup_insert_ne hid] at hlookup
      exact h.key id m' hlookup
  rows a := by
    show a ∈ (db.artifacts.filter fun a => a.manifestId ≠ m.manifestId) ++ _ ↔
      ∃ m', (db.manifests.insert m.manifestId m).lookup a.manifestId = some m' ∧ _
    rw [List.mem_append, List.mem_filter, List.mem_map, decide_eq_true_iff]
    by_cases hid : a.manifestId = m.manifestId
    · rw [hid, AList.lookup_insert]
      constructor
      · rintro (⟨-, hne⟩ | ⟨x, hx, rfl⟩)
        · exact absurd rfl hne
        · exact ⟨m, rfl, x, hx, rfl⟩
      · rintro ⟨m', hm', x, hx, rfl⟩
        cases hm'
        exact Or.inr ⟨x, hx, rfl⟩
    · rw [AList.lookup_insert_ne hid]
      constructor
      · rintro (⟨hmem, -⟩ | ⟨x, -, rfl⟩)
        · exact (h.rows a).mp hmem
        · exact absurd rfl hid
      · intro hold
        exact Or.inl ⟨(h.rows a).mpr hold, hid⟩

theorem Joined.deleteManifest {db : ShareDb} (h : db.Joined) (id : Text) :
    (db.deleteManifest id).Joined where
  key id' m' hlookup := by
    replace hlookup : (db.manifests.erase id).lookup id' = some m' := hlookup
    by_cases hid : id' = id
    · rw [hid, AList.lookup_erase] at hlookup
      cases hlookup
    · rw [AList.lookup_erase_ne hid] at hlookup
      exact h.key id' m' hlookup
  rows a := by
    show a ∈ (db.artifacts.filter fun a => a.manifestId ≠ id) ↔
      ∃ m', (db.manifests.erase id).lookup a.manifestId = some m' ∧ _
    rw [List.mem_filter, decide_eq_true_iff]
    by_cases hid : a.manifestId = id
    · rw [hid, AList.lookup_erase]
      constructor
      · rintro ⟨-, hne⟩
        exact absurd rfl hne
      · rintro ⟨m', hm', -⟩
        cases hm'
    · rw [AList.lookup_erase_ne hid]
      exact ⟨fun hmem => (h.rows a).mp hmem.1, fun hold => ⟨(h.rows a).mpr hold, hid⟩⟩

/-- Every operation keeps the tables together. -/
theorem Joined.apply {db : ShareDb} (h : db.Joined) (op : ShareOp) : (op.apply db).Joined := by
  cases op with
  | insertManifest m => exact h.insertManifest m
  | deleteManifest id => exact h.deleteManifest id
  | _ => exact ⟨h.key, h.rows⟩

theorem joined_run (ops : List ShareOp) : (run ops).Joined := by
  induction ops using List.reverseRecOn with
  | nil => exact joined_empty
  | append_singleton ops op ih =>
    show (List.foldl ShareOp.apply empty (ops ++ [op])).Joined
    rw [List.foldl_append]
    exact ih.apply op

/-- What an operation does to the confirmation of a blob. -/
theorem isGatedShareConfirmed_apply (db : ShareDb) (op : ShareOp) (blake3 : Text) :
    (op.apply db).isGatedShareConfirmed blake3 = true ↔
      (∃ sha256, op = .confirmGatedShare blake3 sha256) ∨
        (db.isGatedShareConfirmed blake3 = true ∧ ¬ op.Revokes blake3) := by
  have hother : ∀ {P Q : Prop}, ¬ P → Q → ∀ {c : Bool}, c = true ↔ P ∨ (c = true ∧ Q) :=
    fun hp hq => ⟨fun hc => Or.inr ⟨hc, hq⟩, fun h => h.elim (fun p => absurd p hp) And.left⟩
  cases op with
  | deleteCacheBlob b =>
    show ((((db.overrides.erase b).lookup blake3).map _).getD false) = true ↔ _
    by_cases hb : b = blake3
    · rw [hb, AList.lookup_erase]
      refine iff_of_false Bool.false_ne_true ?_
      rintro (⟨sha256, hop⟩ | ⟨-, hrevokes⟩)
      · cases hop
      · exact hrevokes rfl
    · rw [AList.lookup_erase_ne (Ne.symm hb)]
      exact hother (fun h => by obtain ⟨sha256, hop⟩ := h; cases hop) hb
  | setShareOverride b sha256 shared =>
    refine Iff.trans ?_ (hother (fun h => by obtain ⟨sha256, hop⟩ := h; cases hop) id)
    show ((((db.overrides.insert b _).lookup blake3).map _).getD false) = true ↔ _
    by_cases hb : blake3 = b
    · rw [hb, AList.lookup_insert]
      rfl
    · rw [AList.lookup_insert_ne hb]
      rfl
  -- the only operation that sets the confirmation; those before it keep or drop it
  | confirmGatedShare b sha256 =>
    show ((((db.overrides.insert b _).lookup blake3).map _).getD false) = true ↔ _
    by_cases hb : blake3 = b
    · rw [hb, AList.lookup_insert]
      exact iff_of_true rfl (Or.inl ⟨sha256, rfl⟩)
    · rw [AList.lookup_insert_ne hb]
      refine hother (fun h => ?_) id
      obtain ⟨sha256', hop⟩ := h
      exact hb (ShareOp.confirmGatedShare.inj hop).1.symm
  | clearAllGatedConfirmations =>
    refine iff_of_false (fun h => ?_) ?_
    · replace h : (((db.overrides.filterMapVal _).lookup blake3).map _).getD false = true := h
      rw [AList.lookup_filterMapVal] at h
      cases hlookup : db.overrides.lookup blake3 with
      | none =>
        rw [hlookup] at h
        cases h
      | some o =>
        rw [hlookup, Option.bind_some, Option.map_some, Option.getD_some] at h
        split at h
        · cases h
        · rename_i hnot
          exact hnot h
    · rintro (⟨sha256, hop⟩ | ⟨-, hrevokes⟩)
      · cases hop
      · exact hrevokes trivial
  | _ => exact hother (fun h => by obtain ⟨sha256, hop⟩ := h; cases hop) id

/-- **The flag says whether a confirmation stands**, in every run. -/
theorem confirmed_iff_standing (ops : List ShareOp) (blake3 : Text) :
    (run ops).isGatedShareConfirmed blake3 = true ↔ Standing ops blake3 := by
  induction ops using List.reverseRecOn with
  | nil =>
    refine iff_of_false Bool.false_ne_true ?_
    rintro ⟨earlier, sha256, later, heq, -⟩
    exact absurd heq.symm (List.append_ne_nil_of_right_ne_nil _ (List.cons_ne_nil _ _))
  | append_singleton ops op ih =>
    rw [standing_append, ← ih, ← isGatedShareConfirmed_apply]
    show (List.foldl ShareOp.apply empty (ops ++ [op])).isGatedShareConfirmed blake3 = true ↔ _
    rw [List.foldl_append]
    rfl

end ShareDb

/-! ## Which manifests a blob belongs to -/

/-- A declared digest is one of the content's, whatever its letter case. -/
def Hashes.Declares (D : Digests) (h : Hashes) (content : Bytes) : Prop :=
  eqIgnoreAsciiCase h.blake3 (hexEncode (D.blake3 content)) = true ∨
    eqIgnoreAsciiCase h.sha256 (hexEncode (D.sha256 content)) = true ∨
    eqIgnoreAsciiCase h.gitBlobSha1 (gitBlobOid D content) = true

/-- **A manifest contains some content**: an artifact declares a digest of it. -/
def DocumentBody.Contains (D : Digests) (m : DocumentBody) (content : Bytes) : Prop :=
  ∃ a ∈ m.artifacts, a.hashes.Declares D content

/-- A manifest names a blob by the very texts of its cache row. -/
def DocumentBody.NamesBlob (m : DocumentBody) (blake3 sha256 : Text) : Prop :=
  ∃ a ∈ m.artifacts, a.hashes.blake3 = blake3 ∨ (sha256 ≠ [] ∧ a.hashes.sha256 = sha256)

namespace ShareDb

variable {db : ShareDb} {blake3 : Text}

/-- **The manifests that are found** are those that name the blob by its texts. -/
theorem Joined.mem_manifestsOf (h : db.Joined) {m : Document} :
    m ∈ db.manifestsOf blake3 ↔
      db.Imported m ∧ m.NamesBlob blake3 (db.cachedSha256 blake3) := by
  unfold manifestsOf
  rw [List.mem_filterMap]
  constructor
  · rintro ⟨a, ha, hlookup⟩
    obtain ⟨hrow, hdigest⟩ := List.mem_filter.mp ha
    obtain ⟨m', hm', x, hx, hrowEq⟩ := (h.rows a).mp hrow
    rw [hm'] at hlookup
    obtain rfl := Option.some.inj hlookup
    have hdigest := of_decide_eq_true hdigest
    rw [hrowEq] at hm' hdigest
    exact ⟨hm', x, hx, hdigest⟩
  · rintro ⟨himported, x, hx, hdigest⟩
    refine ⟨⟨m.manifestId, x.hashes.blake3, x.hashes.sha256⟩, List.mem_filter.mpr
      ⟨(h.rows _).mpr ⟨m, himported, x, hx, rfl⟩, decide_eq_true hdigest⟩, himported⟩

/-- Some manifest that needs a confirmation contains the content, and so the user is to be
asked before it may be shared. -/
def GatedContent (D : Digests) (db : ShareDb) (content : Bytes) : Prop :=
  ∃ m, db.Imported m ∧ m.needsConfirmation = true ∧ m.Contains D content

/-- Some manifest that needs a confirmation names the blob by its texts. -/
def Recognized (db : ShareDb) (blake3 : Text) : Prop :=
  ∃ m, db.Imported m ∧ m.needsConfirmation = true ∧
    m.NamesBlob blake3 (db.cachedSha256 blake3)

/-- Something shares the blob without asking whether it needs a confirmation: a plain
choice, or, without one, another manifest. -/
def SharedPlainly (db : ShareDb) (blake3 : Text) : Prop :=
  (db.shareOverride blake3 = some true ∧ db.isGatedShareConfirmed blake3 = false) ∨
    (db.shareOverride blake3 = none ∧ ∃ m, db.Imported m ∧
      m.autoShareable db.shareGated = true ∧ m.NamesBlob blake3 (db.cachedSha256 blake3))

theorem Joined.blobIsGatedOrRestrictive_iff (h : db.Joined) :
    db.blobIsGatedOrRestrictive blake3 = true ↔ db.Recognized blake3 := by
  unfold blobIsGatedOrRestrictive Recognized
  rw [List.any_eq_true]
  constructor
  · rintro ⟨m, hm, hneeds⟩
    obtain ⟨himported, hnames⟩ := h.mem_manifestsOf.mp hm
    exact ⟨m, himported, hneeds, hnames⟩
  · rintro ⟨m, himported, hneeds, hnames⟩
    exact ⟨m, h.mem_manifestsOf.mpr ⟨himported, hnames⟩, hneeds⟩

theorem Joined.blobProvenance_iff (h : db.Joined) :
    (db.blobProvenance blake3).2.2 = true ↔ ∃ m, db.Imported m ∧
      m.autoShareable db.shareGated = true ∧ m.NamesBlob blake3 (db.cachedSha256 blake3) := by
  have hany : (db.blobProvenance blake3).2.2 =
      (db.manifestsOf blake3).any fun m => m.autoShareable db.shareGated := by
    unfold blobProvenance
    dsimp only
    cases db.manifestsOf blake3 with
    | nil => rfl
    | cons m manifests => rfl
  rw [hany, List.any_eq_true]
  constructor
  · rintro ⟨m, hm, hauto⟩
    obtain ⟨himported, hnames⟩ := h.mem_manifestsOf.mp hm
    exact ⟨m, himported, hauto, hnames⟩
  · rintro ⟨m, himported, hauto, hnames⟩
    exact ⟨m, h.mem_manifestsOf.mpr ⟨himported, hnames⟩, hauto⟩

/-- What is recognized is shared when it is confirmed and not stopped. -/
theorem Joined.isBlobShareable_of_recognized (h : db.Joined) (hrecognized : db.Recognized blake3) :
    db.isBlobShareable blake3 = true ↔
      db.isGatedShareConfirmed blake3 = true ∧ db.shareOverride blake3 ≠ some false := by
  unfold isBlobShareable
  rw [if_pos (h.blobIsGatedOrRestrictive_iff.mpr hrecognized)]
  by_cases hstop : db.shareOverride blake3 = some false
  · rw [if_pos hstop]
    exact iff_of_false Bool.false_ne_true fun hboth => hboth.2 hstop
  · rw [if_neg hstop]
    exact (and_iff_left hstop).symm

/-- **What is not recognized** is shared without a confirmation when something shares it
plainly. -/
theorem Joined.isBlobShareable_of_not_recognized (h : db.Joined)
    (hnot : ¬ db.Recognized blake3) :
    (db.isBlobShareable blake3 = true →
      db.isGatedShareConfirmed blake3 = true ∧ db.shareOverride blake3 ≠ some false) ↔
      ¬ db.SharedPlainly blake3 := by
  have hplain : db.isBlobShareable blake3 = match db.shareOverride blake3 with
      | some forced => forced
      | none => (db.blobProvenance blake3).2.2 := by
    unfold isBlobShareable
    rw [if_neg fun hgated => hnot (h.blobIsGatedOrRestrictive_iff.mp hgated)]
  rw [hplain]
  unfold SharedPlainly
  cases hchoice : db.shareOverride blake3 with
  | none =>
    -- without a choice there is no confirmation either
    have hunconfirmed : db.isGatedShareConfirmed blake3 = false := by
      unfold shareOverride at hchoice
      unfold isGatedShareConfirmed
      rw [Option.map_eq_none_iff.mp hchoice]
      rfl
    dsimp only
    rw [h.blobProvenance_iff, hunconfirmed]
    constructor
    · rintro himplies (⟨hsome, -⟩ | ⟨-, hauto⟩)
      · cases hsome
      · exact Bool.false_ne_true (himplies hauto).1
    · intro hno hauto
      exact absurd (Or.inr ⟨rfl, hauto⟩) hno
  | some forced =>
    dsimp only
    cases forced with
    | false =>
      refine iff_of_true (fun hfalse => absurd hfalse Bool.false_ne_true) ?_
      rintro (⟨hsome, -⟩ | ⟨hnone, -⟩)
      · cases hsome
      · cases hnone
    | true =>
      constructor
      · rintro himplies (⟨-, hunconfirmed⟩ | ⟨hnone, -⟩)
        · rw [(himplies rfl).1] at hunconfirmed
          cases hunconfirmed
        · cases hnone
      · intro hno _
        refine ⟨?_, fun hstop => nomatch hstop⟩
        by_contra hunconfirmed
        exact hno (Or.inl ⟨rfl, Bool.eq_false_iff.mpr hunconfirmed⟩)

end ShareDb

/-- **Gated content is shared with a standing confirmation only**, after any operations,
exactly if a manifest that needs the confirmation names the blob by the texts of its
cache row, or nothing shares the blob plainly. -/
theorem gated_share_confirmed_iff (D : Digests) (ops : List ShareOp) (blake3 : Text)
    (content : Bytes) :
    ((ShareDb.run ops).GatedContent D content →
      (ShareDb.run ops).isBlobShareable blake3 = true →
        Standing ops blake3 ∧ (ShareDb.run ops).shareOverride blake3 ≠ some false) ↔
    ((ShareDb.run ops).GatedContent D content →
      (ShareDb.run ops).Recognized blake3 ∨ ¬ (ShareDb.run ops).SharedPlainly blake3) := by
  have hjoined := ShareDb.joined_run ops
  refine forall_congr' fun _ => ?_
  rw [← ShareDb.confirmed_iff_standing]
  by_cases hrecognized : (ShareDb.run ops).Recognized blake3
  · exact iff_of_true (hjoined.isBlobShareable_of_recognized hrecognized).mp (Or.inl hrecognized)
  · rw [hjoined.isBlobShareable_of_not_recognized hrecognized]
    exact (or_iff_right hrecognized).symm

/-! ## A digest in capitals -/

/-- A manifest of one file, from Hugging Face, gated or not. -/
def oneFileManifest (manifestId : Text) (gated : Bool) (hashes : Hashes) : Document where
  schemaVersion := SCHEMA_VERSION
  manifestId := manifestId
  publisher := ⟨"hf:org/model".toList, none, []⟩
  model := ⟨"model".toList, none, none, none, none, none⟩
  license := ⟨"apache-2.0".toList, none, .publicP2pAllowed⟩
  access := ⟨gated, true, []⟩
  artifacts := [⟨⟨"model.gguf".toList, 3, hashes, none,
    [.huggingface "org/model".toList "main".toList "model.gguf".toList .none]⟩,
    "weights".toList, none⟩]
  provenance := none
  signatures := []

/-- The digests of `abc`, in lower case and in capitals, as the two spellings in which a
manifest may write the same hexadecimal digest. -/
def abcDigests : Hashes :=
  ⟨hexEncode (sampleDigests.blake3 abc), hexEncode (sampleDigests.sha256 abc), []⟩

/-- The same digests in capitals, which mean the same bytes. -/
def abcDigestsUpper : Hashes :=
  ⟨abcDigests.blake3.map Char.toUpper, abcDigests.sha256.map Char.toUpper, []⟩

/-- A public manifest and a gated one are imported that contain the same file, which is cached. -/
def importBoth : List ShareOp := [
  .insertManifest (oneFileManifest "mdl_open".toList false abcDigests),
  .insertManifest (oneFileManifest "mdl_gated".toList true abcDigestsUpper),
  .upsertCacheBlob ⟨abcDigests.blake3, abcDigests.sha256, 3⟩]

/-- **A gated file is shared though nobody confirmed it**, when the gated manifest
spells its digests in capitals. -/
theorem gated_shared_unconfirmed :
    (oneFileManifest "mdl_gated".toList true abcDigestsUpper).manifest.validate.toBool = true ∧
      (ShareDb.run importBoth).GatedContent sampleDigests abc ∧
      (ShareDb.run importBoth).isBlobShareable abcDigests.blake3 = true ∧
      ¬ Standing importBoth abcDigests.blake3 := by
  refine ⟨by decide +kernel, ?_, by decide +kernel, fun hstanding => ?_⟩
  · refine ⟨oneFileManifest "mdl_gated".toList true abcDigestsUpper, ?_, rfl, _,
      List.mem_cons_self, Or.inl ?_⟩
    · show AList.lookup _ _ = some _
      decide +kernel
    · decide +kernel
  · have hconfirmed := (ShareDb.confirmed_iff_standing importBoth _).mpr hstanding
    exact absurd hconfirmed (by decide +kernel)

end Atlas
