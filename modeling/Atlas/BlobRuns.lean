import Atlas.BlobFiles
import Atlas.Transition

/-!
# Committed blobs keep their bytes, and what takes their permission

The names inside the store never share a node with each other, so nothing the
store does to its own files reaches a blob but removing it; what is outside can
share one, by a hard link. Replacing or removing such a destination leaves the
blob its bytes, for that takes a name away and no more, but clearing its
permission first clears the blob's (`strips_writable`). So every run keeps the
bytes of every committed blob, and keeps it read-only as long as no hard link of
a committed blob is materialized over or removed while the blob is there.
-/

namespace Atlas

open Text Program Transition

namespace Vault

/-- **Committed blobs are as they were committed**, and read-only as well if that
is asked for; what is in `K` is among them. -/
structure Intact (strict : Prop) (K : StorePath → Option Bytes) (v : Vault) : Prop where
  guards : Inodes.Guards StorePath.Inside v.committed v.fs
  closed : strict → Inodes.Sealed v.committed v.fs
  blobs : ∀ p, (v.committed p).isSome → ∃ key, p = .blob key
  remembered : ∀ p b, K p = some b → v.committed p = some b

variable {strict : Prop} {K : StorePath → Option Bytes} {v : Vault}

namespace Intact

/-- What was committed under a name that leads nowhere: nothing. -/
theorem uncommitted (h : Intact strict K v) {p : StorePath} (hp : v.fs.file p = none) :
    v.committed p = none := by
  cases hc : v.committed p with
  | none => rfl
  | some b =>
    obtain ⟨f, hf, -⟩ := h.guards.file_eq hc
    rw [hp] at hf
    cases hf

/-- Nothing but blobs is committed. -/
theorem not_blob (h : Intact strict K v) {p : StorePath} (hp : ∀ key, p ≠ .blob key) :
    v.committed p = none := by
  cases hc : v.committed p with
  | none => rfl
  | some b =>
    obtain ⟨key, hkey⟩ := h.blobs p (by rw [hc]; rfl)
    exact absurd hkey (hp key)

/-- A change of the files alone. -/
theorem files (h : Intact strict K v) {fs : Inodes StorePath Bytes}
    (hg : Inodes.Guards StorePath.Inside v.committed fs)
    (hs : strict → Inodes.Sealed v.committed v.fs → Inodes.Sealed v.committed fs) :
    Intact strict K { v with fs := fs } :=
  ⟨hg, fun hstrict => hs hstrict (h.closed hstrict), h.blobs, h.remembered⟩

theorem unlink (h : Intact strict K v) {p : StorePath} (hp : v.committed p = none) :
    Intact strict K { v with fs := v.fs.unlink p } :=
  h.files (h.guards.unlink hp) fun _ hs => hs.unlink hp

theorem unlinkAll (h : Intact strict K v) {gone : StorePath → Bool}
    (hgone : ∀ p, gone p = true → v.committed p = none) :
    Intact strict K { v with fs := v.fs.unlinkAll gone } :=
  h.files (h.guards.unlinkAll hgone) fun _ hs => hs.unlinkAll hgone

theorem put (h : Intact strict K v) {p : StorePath} (hin : p.Inside)
    (hp : v.committed p = none) (f : FileNode Bytes) :
    Intact strict K { v with fs := v.fs.put p f } :=
  h.files (h.guards.put hin hp f) fun _ hs => hs.put h.guards hin hp f

theorem create (h : Intact strict K v) {p : StorePath} (hp : v.committed p = none)
    (f : FileNode Bytes) : Intact strict K { v with fs := v.fs.create p f } :=
  h.files (h.guards.create hp f) fun _ hs => hs.create h.guards hp f

theorem rename (h : Intact strict K v) {p q : StorePath} (hin : p.Inside)
    (hp : v.committed p = none) (hq : v.committed q = none) :
    Intact strict K { v with fs := v.fs.rename p q } :=
  h.files (h.guards.rename (fun _ => hin) hp hq) fun _ hs => hs.rename hp hq

theorem link (h : Intact strict K v) {q : StorePath} (hout : ¬ q.Inside)
    (hq : v.committed q = none) (p : StorePath) :
    Intact strict K { v with fs := v.fs.link p q } :=
  h.files (h.guards.link hout p) fun _ hs => hs.link hq p

theorem protect (h : Intact strict K v) (p : StorePath) :
    Intact strict K { v with fs := v.fs.chmod p true } :=
  h.files (h.guards.chmod p true) fun _ hs => hs.protect p

/-- Clearing a permission, through a name that leads to no committed blob if
permissions are asked for. -/
theorem chmod_false (h : Intact strict K v) {p : StorePath}
    (hp : strict → ∀ q, (v.committed q).isSome → ¬ v.fs.Alias q p) :
    Intact strict K { v with fs := v.fs.chmod p false } :=
  h.files (h.guards.chmod p false) fun hstrict hs => hs.open_of_not_alias (hp hstrict)

theorem empty (strict : Prop) : Intact strict (fun _ => none) empty :=
  ⟨⟨fun _ _ h => (nomatch h), fun _ _ h => (nomatch h), fun _ h => (nomatch h),
    fun _ _ _ _ _ h => (nomatch h)⟩, fun _ _ h => (nomatch h), fun _ h => (nomatch h),
    fun _ _ h => (nomatch h)⟩

end Intact

/-! ## Single calls -/

theorem refuse_keeps {I : Vault → Prop} (path : Text) (reason : Option Text) :
    Keeps I (refuse path reason) := by
  cases reason with
  | none => exact Keeps.pure ()
  | some reason => exact Keeps.throw _

/-- What writing to a name of the store that is not a blob's comes to. -/
theorem writeFile_spec (failure : WriteFailure) {p : StorePath} (hin : p.Inside)
    (hp : ∀ key, p ≠ .blob key) (f : FileNode Bytes) (h : Intact strict K v) :
    Intact strict K (writeFile failure p f v).2 ∧
      (∀ q, q ≠ p → (writeFile failure p f v).2.fs.names q = v.fs.names q) ∧
      ((writeFile failure p f v).1 = .ok () →
        (writeFile failure p f v).2.fs.file p = some f) := by
  unfold writeFile
  rw [bind_apply, get_apply, andThen_ok]
  by_cases hro : (v.fs.file p).any FileNode.readonly = true
  · rw [if_pos hro]
    exact ⟨h, fun _ _ => rfl, nofun⟩
  · rw [if_neg hro]
    match failure with
    | some (reason, none) => exact ⟨h, fun _ _ => rfl, nofun⟩
    | some (reason, some left) =>
      exact ⟨h.put hin (h.not_blob hp) left, fun q hq => Inodes.names_put_of_ne hq _ _, nofun⟩
    | none =>
      exact ⟨h.put hin (h.not_blob hp) f, fun q hq => Inodes.names_put_of_ne hq _ _,
        fun _ => Inodes.file_put_self _ _ _⟩

/-- Writing to a name of the store that is not a blob's. -/
theorem writeFile_intact (failure : WriteFailure) {p : StorePath} (hin : p.Inside)
    (hp : ∀ key, p ≠ .blob key) (f : FileNode Bytes) :
    Keeps (Intact strict K) (writeFile failure p f) :=
  fun _ h => (writeFile_spec failure hin hp f h).1

theorem writeMeta_intact (io : MetaIo) (key : Text) (sidecar : Bytes) :
    Keeps (Intact strict K) (writeMeta io key sidecar) :=
  Keeps.bind (refuse_keeps _ _) fun _ =>
    writeFile_intact (p := .blobMeta key) io.write trivial nofun _

theorem unlink_intact {p : StorePath} (hp : ∀ key, p ≠ .blob key) :
    Keeps (Intact strict K) (onFiles (Inodes.unlink p)) :=
  Keeps.modify fun _ h => h.unlink (h.not_blob hp)

/-! ## Committing -/

/-- What holds between the publishing of a blob and its being made read-only. -/
def Published (strict : Prop) (K : StorePath → Option Bytes) (key : Text) (v : Vault) : Prop :=
  Intact False K v ∧ (v.fs.file (.blob key)).isSome ∧ (strict → ∀ q, q ≠ .blob key →
    (v.committed q).isSome → ∀ n, v.fs.names q = some n → (v.fs.nodes n).readonly = true)

/-- Publishing a file of the store under a name that is free. -/
theorem publish_published {p : StorePath} {key : Text} (hin : p.Inside)
    (hp : ∀ key, p ≠ .blob key) {f : FileNode Bytes} :
    Triple (fun v => Intact strict K v ∧ v.fs.file p = some f ∧ v.fs.file (.blob key) = none)
      (publish p key) (fun r v => r = .ok () ∧ Published strict K key v) := by
  rintro v ⟨h, hf, hfree⟩
  have hpc := h.not_blob hp
  have hkc := h.uncommitted hfree
  have hfile : (v.fs.rename p (.blob key)).file (.blob key) = some f := by
    unfold Inodes.file at hf ⊢
    rw [show (v.fs.rename p (.blob key)).names (.blob key) = v.fs.names p from
      Function.update_self ..]
    exact hf
  have hrenamed := h.rename hin hpc hkc
  have hguard := hrenamed.guards.guard (p := .blob key) trivial hfile
  refine ⟨rfl, ⟨?_, nofun, fun q hq => ?_, fun q b hq => ?_⟩, congrArg Option.isSome hfile,
    fun hstrict q hqk hq => ?_⟩
  · show Inodes.Guards _ (Function.update v.committed (.blob key)
      ((v.fs.file p).map FileNode.content)) _
    rw [hf]
    exact hguard
  · by_cases hqk : q = .blob key
    · exact ⟨key, hqk⟩
    · rw [show (publish p key v).2.committed q = v.committed q from
        Function.update_of_ne hqk _ _] at hq
      exact h.blobs q hq
  · have hqk : q ≠ .blob key := fun he => by
      rw [he] at hq
      exact absurd ((h.remembered _ b hq).symm.trans hkc) nofun
    exact (Function.update_of_ne hqk _ _).trans (h.remembered q b hq)
  · rw [show (publish p key v).2.committed q = v.committed q from
      Function.update_of_ne hqk _ _] at hq
    exact hrenamed.closed hstrict q hq

/-- Making the published blob read-only. -/
theorem protect_published {key : Text} {works : Bool} (hworks : strict → works = true) :
    Triple (Published strict K key) (setReadonly works (.blob key) true)
      (fun _ v => Intact strict K v) := by
  rintro v ⟨h, hthere, hothers⟩
  obtain ⟨n, hn⟩ : ∃ n, v.fs.names (.blob key) = some n := by
    rw [Inodes.file, Option.isSome_map] at hthere
    exact Option.isSome_iff_exists.mp hthere
  unfold setReadonly
  by_cases hw : works = true
  · rw [whenever_true hw]
    refine ⟨(h.protect _).guards, fun hstrict q hq m hm => ?_, h.blobs, h.remembered⟩
    have hchmod : v.fs.chmod (.blob key) true = { v.fs with
        nodes := Function.update v.fs.nodes n { v.fs.nodes n with readonly := true } } := by
      unfold Inodes.chmod
      rw [hn]
    show ((v.fs.chmod (.blob key) true).nodes m).readonly = true
    replace hm : (v.fs.chmod (.blob key) true).names q = some m := hm
    rw [hchmod] at hm ⊢
    show (Function.update v.fs.nodes n { v.fs.nodes n with readonly := true } m).readonly = true
    by_cases hmn : m = n
    · rw [hmn, Function.update_self]
    · rw [Function.update_of_ne hmn]
      refine hothers hstrict q (fun hqk => hmn ?_) hq m hm
      rw [hqk] at hm
      exact Option.some.inj (hm.symm.trans hn)
  · rw [whenever_false hw]
    exact ⟨h.guards, fun hstrict => absurd (hworks hstrict) hw, h.blobs, h.remembered⟩

/-- Taking the temp away after its copy was published. -/
theorem unlink_published {p : StorePath} (hp : ∀ key, p ≠ .blob key) (key : Text) :
    Keeps (Published strict K key) (onFiles (Inodes.unlink p)) := by
  refine Keeps.modify fun v ⟨h, hthere, hothers⟩ => ?_
  have hname : ∀ q, q ≠ p → (v.fs.unlink p).names q = v.fs.names q :=
    fun q hq => Function.update_of_ne hq _ _
  refine ⟨h.unlink (h.not_blob hp), ?_, fun hstrict q hqk hq n hn => ?_⟩
  · show ((v.fs.unlink p).file (.blob key)).isSome = true
    rw [Inodes.file, hname _ (hp key).symm]
    exact hthere
  · by_cases hqp : q = p
    · subst hqp
      rw [show (v.fs.unlink q).names q = none from Function.update_self ..] at hn
      cases hn
    · exact hothers hstrict q hqk hq n ((hname q hqp).symm.trans hn)

/-- What is owed of a publication: the blob is there when it succeeds, and the store is
intact when it fails or the process dies. -/
def PublishPost (strict : Prop) (K : StorePath → Option Bytes) (key : Text) :
    Exit Error Unit → Vault → Prop
  | .ok _, v => Published strict K key v
  | .err _, v => Intact strict K v
  | .crash, v => Intact strict K v

/-- Publishing the copy of a temp, and taking the temp away. -/
theorem publishIncoming_spec (io : CommitIo) (tmp key : Text) {f : FileNode Bytes} :
    Triple (fun v => Intact strict K v ∧ v.fs.file (.incoming key) = some f ∧
        v.fs.file (.blob key) = none) (do
      publish (.incoming key) key
      whenever (io.removesTemp = true) (onFiles (Inodes.unlink (.tmp tmp))))
      (PublishPost strict K key) := by
  refine Triple.bind (publish_published (p := .incoming key) trivial nofun) (fun u => ?_)
    (fun _ _ h => nomatch h.1) (fun _ h => nomatch h.1)
  refine Triple.ite (fun _ => ?_) fun _ => Triple.pure fun _ h => h.2
  exact Triple.modify fun v h => unlink_published (p := .tmp tmp) nofun key v h.2

/-- Publishing a temp leaves its bytes under the name of the blob, or nothing
happened to the blobs. -/
theorem publishTemp_spec (io : CommitIo) (tmp key : Text) :
    Triple (fun v => Intact strict K v ∧ v.fs.file (.blob key) = none) (publishTemp io tmp key)
      (PublishPost strict K key) := by
  have hnotTmp : ∀ k, StorePath.tmp tmp ≠ .blob k := fun k heq => by cases heq
  have hnotIncoming : ∀ k, StorePath.incoming key ≠ .blob k := fun k heq => by cases heq
  rintro v ⟨h, hfree⟩
  unfold publishTemp
  rw [bind_apply, get_apply, andThen_ok]
  cases hf : v.fs.file (.tmp tmp) with
  | none => exact h
  | some f =>
    by_cases hrenames : io.renames = true
    · simp only [if_pos hrenames]
      obtain ⟨hok, hpub⟩ := publish_published (p := .tmp tmp) trivial hnotTmp v ⟨h, hf, hfree⟩
      rw [hok]
      exact hpub
    · simp only [if_neg hrenames]
      obtain ⟨hwritten, hnames, hcopied⟩ := writeFile_spec (p := .incoming key) io.copy
        trivial hnotIncoming f h
      rw [bind_apply]
      generalize writeFile io.copy (.incoming key) f v = r at hwritten hnames hcopied ⊢
      rcases r with ⟨u | e | _, v₁⟩
      · have hfree₁ : v₁.fs.file (.blob key) = none := Inodes.file_eq_none.mpr
          ((hnames (.blob key) fun heq => hnotIncoming key heq.symm).trans (Inodes.file_eq_none.mp hfree))
        rw [andThen_ok, bind_apply]
        cases io.renameIncoming with
        | some reason => exact hwritten
        | none => exact publishIncoming_spec io tmp key v₁ ⟨hwritten, hcopied rfl, hfree₁⟩
      · exact hwritten
      · exact hwritten

/-- **A commit leaves the committed blobs intact**, if the new one can be made
read-only. -/
theorem commitBlob_intact {io : CommitIo} (hprotects : strict → io.protects = true)
    (tmp blake3 : Text) (sidecar : Bytes) :
    Keeps (Intact strict K) (commitBlob io tmp blake3 sidecar) := by
  intro v h
  unfold commitBlob
  rw [bind_apply]
  cases Cas.blobPath blake3 with
  | error e => exact h
  | ok key =>
    rw [ofExcept_ok, andThen_ok, bind_apply, get_apply, andThen_ok]
    by_cases hthere : (v.fs.file (.blob key)).isSome = true
    · rw [if_pos hthere]
      refine Keeps.bind (Keeps.whenever fun _ => unlink_intact (p := .tmp tmp) nofun)
        (fun _ => ?_) v h
      exact Keeps.ite (Keeps.pure ()) (writeMeta_intact _ key sidecar)
    · rw [if_neg hthere]
      have hfree : v.fs.file (.blob key) = none := Option.not_isSome_iff_eq_none.mp hthere
      have hpublish : Triple (fun v => Intact strict K v ∧ v.fs.file (.blob key) = none) (do
          refuse (parentPath (StorePath.blob key).display) io.createDirAll
          publishTemp io tmp key
          setReadonly io.protects (.blob key) true
          writeMeta io.writeMeta key sidecar)
          (fun _ v => Intact strict K v) := by
        refine Triple.bind (R := fun _ v => Intact strict K v ∧ v.fs.file (.blob key) = none)
          (refuse_keeps _ _) (fun _ => ?_) (fun _ _ h => h.1) (fun _ h => h.1)
        refine Triple.bind (publishTemp_spec io tmp key) (fun _ => ?_) (fun _ _ h => h)
          (fun _ h => h)
        refine Triple.bind (protect_published hprotects) (fun _ => ?_) (fun _ _ h => h)
          (fun _ h => h)
        exact writeMeta_intact _ key sidecar
      exact hpublish v ⟨h, hfree⟩

theorem copyToTemp_intact (io : ImportIo) (src : FileNode Bytes) (tmp : Text) :
    Keeps (Intact strict K) (copyToTemp io src (.tmp tmp)) := by
  have hcopy : Keeps (Intact strict K) (reflinkOrCopy io src (.tmp tmp)) := by
    refine Keeps.bind Keeps.get fun v => ?_
    split
    · refine Keeps.modify fun v h => h.create (p := .tmp tmp) (h.not_blob nofun) _
    · exact writeFile_intact (p := .tmp tmp) _ trivial nofun _
  refine Keeps.bind (Keeps.result hcopy) fun r => ?_
  cases r with
  | ok u => exact Keeps.pure ()
  | error e => exact writeFile_intact (p := .tmp tmp) _ trivial nofun _

theorem importFile_intact {io : ImportIo} (hprotects : strict → io.commit.protects = true)
    (src : FileNode Bytes) (blake3 : Text) (sidecar : Bytes) :
    Keeps (Intact strict K) (importFile io src blake3 sidecar) := by
  refine Keeps.bind Keeps.get fun v => Keeps.ite ?_ ?_
  · exact Keeps.bind (Keeps.ofExcept _) fun key => writeMeta_intact _ key sidecar
  · exact Keeps.bind (copyToTemp_intact io src _) fun _ => commitBlob_intact hprotects _ _ _

/-! ## Views -/

/-- A new file outside the store, made writable or not. -/
theorem create_open_intact {dest : StorePath} (hout : ∀ key, dest ≠ .blob key)
    (f : FileNode Bytes) (works : Bool) (h : Intact strict K v) :
    Intact strict K (setReadonly works dest false { v with fs := v.fs.create dest f }).2 := by
  have hfree := h.not_blob hout
  have hcreated := h.create hfree f
  unfold setReadonly
  by_cases hw : works = true
  · rw [whenever_true hw]
    exact hcreated.chmod_false fun _ => h.guards.not_alias_create hfree f
  · rw [whenever_false hw]
    exact hcreated

/-- **What linking a blob to a free name can come to**: nothing, a new file there
that is made writable or not, or a second name for the blob. -/
theorem linkBlob_rule (io : MaterializeIo) (key : Text) {dest : StorePath}
    (hfree : v.fs.names dest = none) {I : Vault → Prop} (hsame : I v)
    (hcreate : ∀ f, I { v with fs := v.fs.create dest f })
    (hopen : ∀ f works, I (setReadonly works dest false { v with fs := v.fs.create dest f }).2)
    (hlink : I { v with fs := v.fs.link (.blob key) dest }) :
    I (linkBlob io key dest v).2 := by
  have hnew : ∀ f works kind, I ((do
      setReadonly works dest false
      pure kind : Program Vault Error LinkKind) { v with fs := v.fs.create dest f }).2 := by
    intro f works kind
    have hopen := hopen f works
    rw [bind_apply]
    generalize setReadonly works dest false { v with fs := v.fs.create dest f } = r at hopen ⊢
    rcases r with ⟨u | e | _, v'⟩ <;> exact hopen
  unfold linkBlob
  rw [bind_apply, get_apply, andThen_ok]
  cases v.fs.file (.blob key) with
  | none => exact hsame
  | some f =>
    dsimp only
    cases io.reflink with
    | some readonly => exact hnew _ io.opens .reflink
    | none =>
      by_cases hlinks : io.hardLinks = true
      · simp only [if_pos hlinks]
        exact hlink
      · simp only [if_neg hlinks]
        rw [bind_apply]
        unfold writeFile
        rw [bind_apply, get_apply, andThen_ok, Inodes.file_eq_none.mpr hfree]
        match io.copy with
        | some (reason, none) => exact hsame
        | some (reason, some left) =>
          show I { v with fs := v.fs.put dest left }
          rw [Inodes.put_of_free hfree]
          exact hcreate left
        | none =>
          have hcopied := hnew f io.opens .copy
          rw [← Inodes.put_of_free hfree] at hcopied
          exact hcopied

/-- Linking a blob to a free name outside the store. -/
theorem linkBlob_intact (io : MaterializeIo) (key : Text) {dest : StorePath}
    (hout : ¬ dest.Inside) :
    Triple (fun v => Intact strict K v ∧ v.fs.names dest = none) (linkBlob io key dest)
      (fun _ v => Intact strict K v) := by
  rintro v ⟨h, hfree⟩
  have hblob : ∀ key, dest ≠ .blob key := fun key he => hout (he ▸ trivial)
  exact linkBlob_rule io key hfree h (fun f => h.create (h.not_blob hblob) f)
    (fun f works => create_open_intact hblob f works h)
    (h.link hout (h.not_blob hblob) (.blob key))

/-- Clearing a permission, where it matters through a name that leads to no
committed blob. -/
theorem setReadonly_intact (h : Intact strict K v) (p : StorePath) (works : Bool)
    (halias : strict → works = true → ∀ q, (v.committed q).isSome → ¬ v.fs.Alias q p) :
    ∃ fs, setReadonly works p false v = (.ok (), { v with fs := fs }) ∧
      Intact strict K { v with fs := fs } := by
  unfold setReadonly
  by_cases hw : works = true
  · rw [whenever_true hw]
    exact ⟨_, rfl, h.chmod_false fun hstrict => halias hstrict hw⟩
  · rw [whenever_false hw]
    exact ⟨v.fs, rfl, h⟩

/-- The operating system lets the permission of a file at the destination of a
view be cleared. -/
def MaterializeIo.Clears (io : MaterializeIo) : Prop :=
  io.createDirAll = none ∧ io.isDir = none ∧ io.clears = true

/-- Making way for a view. -/
theorem clearDest_intact {io : MaterializeIo} {dest : StorePath}
    (hblob : ∀ key, dest ≠ .blob key) (h : Intact strict K v)
    (halias : strict → io.clears = true → ∀ q, (v.committed q).isSome → ¬ v.fs.Alias q dest) :
    Intact strict K (clearDest io dest v).2 ∧
      ((clearDest io dest v).1 = .ok () → (clearDest io dest v).2.fs.names dest = none) := by
  obtain ⟨fs, hopen, hintact⟩ := setReadonly_intact h dest io.clears halias
  unfold clearDest
  rw [bind_of_ok hopen]
  cases io.removeFile with
  | some reason => exact ⟨hintact, nofun⟩
  | none =>
    refine ⟨hintact.unlink (h.not_blob hblob), fun _ => ?_⟩
    exact Function.update_self (f := fs.names) dest none

/-- **Making a view leaves the committed blobs intact**, if it is outside the
store and does not replace a hard link of one, or such a link cannot be made writable. -/
theorem materialize_intact {io : MaterializeIo} {dest : StorePath} (hout : ¬ dest.Inside)
    (blake3 : Text) (h : Intact strict K v)
    (halias : strict → hasBlob v blake3 = true → io.Clears →
      ∀ q, (v.committed q).isSome → ¬ v.fs.Alias q dest) :
    Intact strict K (materialize io blake3 dest v).2 := by
  have hblob : ∀ key, dest ≠ .blob key := fun key he => hout (he ▸ trivial)
  unfold materialize
  rw [bind_apply]
  cases hpath : Cas.blobPath blake3 with
  | error e => exact h
  | ok key =>
    rw [ofExcept_ok, andThen_ok, bind_apply, get_apply, andThen_ok]
    by_cases hnone : (v.fs.file (.blob key)).isNone = true
    · rw [if_pos hnone]
      exact h
    · rw [if_neg hnone]
      have hhas : hasBlob v blake3 = true := by
        unfold hasBlob
        rw [hpath]
        exact Option.isSome_iff_ne_none.mpr fun he => hnone (by rw [he]; rfl)
      cases hdirs : io.createDirAll with
      | some reason => exact h
      | none =>
        cases hdir : io.isDir with
        | some reason => exact h
        | none =>
          have hlink : Triple (fun v => Intact strict K v ∧ v.fs.names dest = none)
              (linkBlob io key dest) (fun _ v => Intact strict K v) :=
            linkBlob_intact io key hout
          -- only a destination that exists is cleared, and only clearing can touch a blob's inode,
          -- through a hard link
          by_cases hthere : (v.fs.file dest).isSome = true
          · rw [whenever_true hthere]
            obtain ⟨hcleared, hfree⟩ := clearDest_intact hblob h
              fun hstrict hclears => halias hstrict hhas ⟨hdirs, hdir, hclears⟩
            show Intact strict K (andThen (fun _ => linkBlob io key dest) (clearDest io dest v)).2
            generalize clearDest io dest v = r at hcleared hfree ⊢
            rcases r with ⟨u | e | _, v'⟩
            · exact hlink v' ⟨hcleared, hfree rfl⟩
            · exact hcleared
            · exact hcleared
          · rw [whenever_false hthere]
            exact hlink v ⟨h, Inodes.file_eq_none.mp (Option.not_isSome_iff_eq_none.mp hthere)⟩

/-- What is below a path outside the store is outside it. -/
theorem not_blob_of_below {path q : StorePath} (h : path.below q = true) :
    ∀ key, q ≠ .blob key := by
  rintro key rfl
  unfold StorePath.below at h
  split at h
  · rename_i heq
    cases heq
  · cases h

/-- The operating system lets the permission of a file be cleared that is to be removed. -/
def RemoveIo.Clears (io : RemoveIo) : Prop :=
  io.symlinkMetadata = none ∧ io.isDir = false ∧ io.clears = true

/-- **Removing a view leaves the committed blobs intact**, if it is outside the
store and no hard link of one, or such a link cannot be made writable. -/
theorem removeInstallDest_intact {io : RemoveIo} {path : StorePath} (hout : ¬ path.Inside)
    (h : Intact strict K v)
    (halias : strict → io.Clears → ∀ q, (v.committed q).isSome → ¬ v.fs.Alias q path) :
    Intact strict K (removeInstallDest io path v).2 := by
  have hblob : ∀ key, path ≠ .blob key := fun key he => hout (he ▸ trivial)
  unfold removeInstallDest
  cases hmeta : io.symlinkMetadata with
  | some reason => exact h
  | none =>
    show Intact strict K ((if io.isDir = true then _ else _ : Program Vault Error Unit) v).2
    by_cases hdir : io.isDir = true
    · rw [if_pos hdir]
      cases io.removeDirAll with
      | some failure =>
        refine h.unlinkAll fun q hq => ?_
        have hbelow : path.below q = true := (Bool.and_eq_true_iff.mp hq).1
        exact h.not_blob (not_blob_of_below hbelow)
      | none => exact h.unlinkAll fun q hq => h.not_blob (not_blob_of_below hq)
    · rw [if_neg hdir, bind_apply, get_apply, andThen_ok]
      cases v.fs.file path with
      | none => exact h
      | some f =>
        have hopen : ∃ fs, whenever (f.readonly = true) (setReadonly io.clears path false) v =
            (.ok (), { v with fs := fs }) ∧ Intact strict K { v with fs := fs } := by
          by_cases hro : f.readonly = true
          · rw [whenever_true hro]
            exact setReadonly_intact h path io.clears fun hstrict hclears =>
              halias hstrict ⟨hmeta, Bool.eq_false_iff.mpr hdir, hclears⟩
          · rw [whenever_false hro]
            exact ⟨v.fs, rfl, h⟩
        obtain ⟨fs, hopened, hintact⟩ := hopen
        dsimp only
        rw [bind_of_ok hopened]
        cases io.removeFile with
        | some reason => exact hintact
        | none => exact hintact.unlink (h.not_blob hblob)

/-! ## Temps and removal -/

theorem quarantine_intact (io : QuarantineIo) (tmp dir label : Text) :
    Keeps (Intact strict K) (quarantine io tmp dir label) := by
  refine Keeps.bind (refuse_keeps _ _) fun _ => Keeps.bind Keeps.get fun v => ?_
  cases v.fs.file (.tmp tmp) with
  | none => exact Keeps.pure ()
  | some f =>
    refine Keeps.ite (Keeps.modify fun v h => ?_) ?_
    · exact h.rename (p := .tmp tmp) trivial (h.not_blob nofun) (h.not_blob nofun)
    · refine Keeps.bind (writeFile_intact (p := .quarantine dir label) _ trivial nofun f)
        fun _ => Keeps.whenever fun _ => unlink_intact (p := .tmp tmp) nofun

/-- A blob that is to go is not among those that are to stay. -/
theorem Intact.release (h : Intact strict K v) {p : StorePath} (hp : K p = none) :
    Intact strict K { v with committed := Function.update v.committed p none } := by
  have hsome : ∀ q, (Function.update v.committed p none q).isSome → (v.committed q).isSome := by
    intro q hq
    by_cases hqp : q = p
    · rw [hqp, Function.update_self] at hq
      cases hq
    · rwa [Function.update_of_ne hqp] at hq
  refine ⟨h.guards.release p, fun hstrict => (h.closed hstrict).release p,
    fun q hq => h.blobs q (hsome q hq), fun q b hq => ?_⟩
  have hqp : q ≠ p := fun he => by
    rw [he, hp] at hq
    cases hq
  exact (Function.update_of_ne hqp _ _).trans (h.remembered q b hq)

/-- Removing a file of the store, where a file whose permission was cleared goes. -/
theorem removeStored_intact {io : RemoveBlobIo} {p : StorePath} (hin : p.Inside)
    (hp : K p = none) (hgoes : strict → io.clears p = true → io.removeFile p = none) :
    Keeps (Intact strict K) (removeStored io p) := by
  intro v h
  unfold removeStored
  rw [bind_apply, get_apply, andThen_ok]
  by_cases hthere : (v.fs.file p).isSome = true
  · rw [whenever_true hthere]
    cases hremove : io.removeFile p with
    | some reason =>
      obtain ⟨fs, hopen, hintact⟩ := setReadonly_intact h p (io.clears p)
        fun hstrict hclears => absurd ((hgoes hstrict hclears).symm.trans hremove) nofun
      rw [bind_of_ok hopen]
      exact hintact
    | none =>
      -- the blob is released first, so that its own permission is not asked for
      have hreleased := h.release hp
      obtain ⟨fs, hopen, hintact⟩ := setReadonly_intact hreleased p (io.clears p)
        fun _ _ q hq ⟨n, hqn, hpn⟩ => by
          have hqp := hreleased.guards.apart q p n (hreleased.guards.guarded_inside q hq) hin
            hqn hpn
          have hgone : (Function.update v.committed p none p).isSome = true := hqp ▸ hq
          rw [Function.update_self] at hgone
          cases hgone
      have hopen' : setReadonly (io.clears p) p false v = (.ok (), { v with fs := fs }) := by
        unfold setReadonly at hopen ⊢
        by_cases hw : io.clears p = true
        · rw [whenever_true hw] at hopen ⊢
          have hfs : v.fs.chmod p false = fs := congrArg (fun r => r.2.fs) hopen
          rw [← hfs]
          rfl
        · rw [whenever_false hw] at hopen ⊢
          have hfs : v.fs = fs := congrArg (fun r => r.2.fs) hopen
          rw [← hfs]
          rfl
      rw [bind_of_ok hopen']
      exact hintact.unlink (Function.update_self (f := v.committed) p none)
  · rw [whenever_false hthere]
    exact h

/-- **Removing a blob leaves the others intact.** -/
theorem removeBlob_intact {io : RemoveBlobIo} {blake3 : Text}
    (hK : ∀ key, Cas.blobPath blake3 = .ok key → K (.blob key) = none)
    (hKmeta : ∀ key, K (.blobMeta key) = none)
    (hgoes : strict → ∀ p, io.clears p = true → io.removeFile p = none) :
    Keeps (Intact strict K) (removeBlob io blake3) := by
  intro v h
  unfold removeBlob
  rw [bind_apply]
  cases hpath : Cas.blobPath blake3 with
  | error e => exact h
  | ok key =>
    refine Keeps.bind (removeStored_intact (p := .blob key) trivial (hK key hpath)
      fun hs => hgoes hs _) (fun _ => ?_) v h
    exact removeStored_intact (p := .blobMeta key) trivial (hKmeta key) fun hs => hgoes hs _

/-! ## Runs -/

/-- Views are made and removed outside the store, which is what the engine is asked for; the
store's own operations are not restricted. -/
def Outward : VaultOp → Prop
  | .materialize _ _ dest => ¬ dest.Inside
  | .removeInstallDest _ path => ¬ path.Inside
  | _ => True

/-- A path leads to the node of a committed blob, so that writing or unprotecting there
reaches the blob. -/
def HardLinked (v : Vault) (path : StorePath) : Prop :=
  ∃ q, (v.committed q).isSome ∧ v.fs.Alias q path

/-- **An operation clears the permission of a blob through a hard link**: it
materializes over, or removes, a destination that leads to the node of a
committed blob, gets as far as clearing the permission, and the operating system
lets it. -/
def Strips (v : Vault) : VaultOp → Prop
  | .materialize io blake3 dest => hasBlob v blake3 = true ∧ io.Clears ∧ HardLinked v dest
  | .removeInstallDest io path => io.Clears ∧ HardLinked v path
  | _ => False

/-- The operating system lets a commit make its blob read-only, and a blob whose
permission was cleared for its removal be removed. -/
def Obliging : VaultOp → Prop
  | .commitBlob io .. => io.protects = true
  | .importFile io .. => io.commit.protects = true
  | .removeBlob io _ => ∀ p, io.clears p = true → io.removeFile p = none
  | _ => True

/-- An operation removes the blob of a key on purpose, as an eviction does. -/
def Removes (key : Text) : VaultOp → Prop
  | .removeBlob _ blake3 => Cas.blobPath blake3 = .ok key
  | _ => False

/-- **What every operation keeps.** -/
theorem step_intact (h : Intact strict K v) {op : VaultOp} (hout : Outward op)
    (hK : ∀ p b, K p = some b → ∃ key, p = .blob key ∧ ¬ Removes key op)
    (hcareful : strict → Obliging op ∧ ¬ Strips v op) : Intact strict K (step v op) := by
  have hKmeta : ∀ key, K (.blobMeta key) = none := by
    intro key
    cases hk : K (.blobMeta key) with
    | none => rfl
    | some b =>
      obtain ⟨key', he, -⟩ := hK _ b hk
      cases he
  cases op with
  | fillTemp name data => exact writeFile_intact (p := .tmp name) _ trivial nofun _ v h
  | commitBlob io tmp blake3 sidecar =>
    exact commitBlob_intact (fun hs => (hcareful hs).1) tmp blake3 sidecar v h
  | importFile io src blake3 sidecar =>
    exact importFile_intact (fun hs => (hcareful hs).1) src blake3 sidecar v h
  | materialize io blake3 dest =>
    exact materialize_intact hout blake3 h fun hs hthere hclears q hq hal =>
      (hcareful hs).2 ⟨hthere, hclears, q, hq, hal⟩
  | removeInstallDest io path =>
    exact removeInstallDest_intact hout h fun hs hclears q hq hal =>
      (hcareful hs).2 ⟨hclears, q, hq, hal⟩
  | quarantine io tmp dir label => exact quarantine_intact io tmp dir label v h
  | removeBlob io blake3 =>
    refine removeBlob_intact (fun key hpath => ?_) hKmeta (fun hs => (hcareful hs).1) v h
    cases hk : K (.blob key) with
    | none => rfl
    | some b =>
      obtain ⟨key', he, hnot⟩ := hK _ b hk
      cases he
      exact absurd hpath hnot

/-! ## What clearing a permission does -/

/-- The blob of a name is there and is not read-only, so that a program could write into it. -/
def Writable (p : StorePath) (v : Vault) : Prop :=
  ∃ f, v.fs.file p = some f ∧ f.readonly = false

/-- A node that the blob of a name leads to, and no new file. -/
structure Loose (p : StorePath) (n : ℕ) (v : Vault) : Prop where
  name : v.fs.names p = some n
  readonly : (v.fs.nodes n).readonly = false
  old : n < v.fs.next

theorem Loose.writable {p : StorePath} {n : ℕ} (h : Loose p n v) : Writable p v :=
  ⟨v.fs.nodes n, by rw [Inodes.file, h.name]; rfl, h.readonly⟩

/-- Clearing the permission of a name clears it of the blob it is a hard link of. -/
theorem chmod_loose (h : Intact strict K v) {p dest : StorePath} (hal : v.fs.Alias p dest) :
    ∃ n, Loose p n { v with fs := v.fs.chmod dest false } := by
  obtain ⟨n, hp, hdest⟩ := hal
  have hchmod : v.fs.chmod dest false = { v.fs with
      nodes := Function.update v.fs.nodes n { v.fs.nodes n with readonly := false } } := by
    unfold Inodes.chmod
    rw [hdest]
  refine ⟨n, ?_, ?_, ?_⟩
  · rw [hchmod]
    exact hp
  · show ((v.fs.chmod dest false).nodes n).readonly = false
    rw [hchmod]
    show (Function.update v.fs.nodes n { v.fs.nodes n with readonly := false } n).readonly = false
    rw [Function.update_self]
  · rw [hchmod]
    exact h.guards.allocated p n hp

theorem Loose.unlink {p q : StorePath} {n : ℕ} (h : Loose p n v) (hne : p ≠ q) :
    Loose p n { v with fs := v.fs.unlink q } :=
  ⟨(Function.update_of_ne hne _ _).trans h.name, h.readonly, h.old⟩

theorem Loose.create {p q : StorePath} {n : ℕ} (h : Loose p n v) (hne : p ≠ q)
    (f : FileNode Bytes) : Loose p n { v with fs := v.fs.create q f } := by
  refine ⟨(Function.update_of_ne hne _ _).trans h.name, ?_, Nat.lt_succ_of_lt h.old⟩
  show (Function.update v.fs.nodes v.fs.next f n).readonly = false
  rw [Function.update_of_ne (Nat.ne_of_lt h.old)]
  exact h.readonly

theorem setReadonly_committed (works : Bool) (p : StorePath) (v : Vault) :
    (setReadonly works p false v).2.committed = v.committed := by
  unfold setReadonly
  by_cases hw : works = true
  · rw [whenever_true hw]
    rfl
  · rw [whenever_false hw]
    rfl

/-- Making a new file writable leaves a blob that is not read-only so. -/
theorem Loose.setReadonly {p q : StorePath} {n : ℕ} (h : Loose p n v) (works : Bool) :
    Loose p n (setReadonly works q false v).2 := by
  unfold Vault.setReadonly
  by_cases hw : works = true
  · rw [whenever_true hw]
    show Loose p n { v with fs := v.fs.chmod q false }
    unfold Inodes.chmod
    split
    · rename_i m hm
      refine ⟨h.name, ?_, h.old⟩
      show (Function.update v.fs.nodes m { v.fs.nodes m with readonly := false } n).readonly = _
      by_cases hnm : n = m
      · rw [hnm, Function.update_self]
      · rw [Function.update_of_ne hnm]
        exact h.readonly
    · exact h
  · rw [whenever_false hw]
    exact h

/-- Clearing a permission, where it is cleared. -/
theorem setReadonly_of_works {p : StorePath} {works : Bool} (hworks : works = true) :
    setReadonly works p false v = (.ok (), { v with fs := v.fs.chmod p false }) := by
  unfold setReadonly
  rw [whenever_true hworks]
  rfl

/-- Making way over a hard link of a blob clears the permission of the blob. -/
theorem clearDest_loose {io : MaterializeIo} {p dest : StorePath} (hne : p ≠ dest)
    (h : Intact strict K v) (hclears : io.clears = true) (hal : v.fs.Alias p dest) :
    (clearDest io dest v).2.committed = v.committed ∧
      (∃ n, Loose p n (clearDest io dest v).2) ∧
      ((clearDest io dest v).1 = .ok () → (clearDest io dest v).2.fs.names dest = none) := by
  obtain ⟨n, hloose⟩ := chmod_loose h hal
  unfold clearDest
  rw [bind_of_ok (setReadonly_of_works hclears)]
  cases io.removeFile with
  | some reason => exact ⟨rfl, ⟨n, hloose⟩, nofun⟩
  | none =>
    refine ⟨rfl, ⟨n, hloose.unlink hne⟩, fun _ => ?_⟩
    exact Function.update_self (f := (v.fs.chmod dest false).names) dest none

/-- What becomes of a free name leaves a blob that is not read-only so. -/
theorem linkBlob_loose (io : MaterializeIo) (key : Text) {p dest : StorePath} {n : ℕ}
    (hne : p ≠ dest) (hfree : v.fs.names dest = none) (h : Loose p n v) :
    (linkBlob io key dest v).2.committed = v.committed ∧
      Loose p n (linkBlob io key dest v).2 := by
  refine linkBlob_rule io key hfree
    (I := fun v' => v'.committed = v.committed ∧ Loose p n v') ⟨rfl, h⟩
    (fun f => ⟨rfl, h.create hne f⟩) (fun f works => ⟨?_, (h.create hne f).setReadonly works⟩)
    ⟨rfl, (Function.update_of_ne hne _ _).trans h.name, h.readonly, h.old⟩
  exact setReadonly_committed works dest _

/-- Materializing over a hard link of a blob leaves the blob writable. -/
theorem materialize_loose {io : MaterializeIo} {blake3 : Text} {p dest : StorePath}
    (hne : p ≠ dest) (h : Intact strict K v) (hhas : hasBlob v blake3 = true)
    (hclears : io.Clears) (hal : v.fs.Alias p dest) :
    (materialize io blake3 dest v).2.committed = v.committed ∧
      Writable p (materialize io blake3 dest v).2 := by
  have hthere : (v.fs.file dest).isSome = true := by
    obtain ⟨m, -, hdest⟩ := hal
    rw [Inodes.file, hdest]
    rfl
  obtain ⟨hdirs, hdir, hclears⟩ := hclears
  unfold hasBlob at hhas
  unfold materialize
  rw [bind_apply]
  cases hpath : Cas.blobPath blake3 with
  | error e =>
    rw [hpath] at hhas
    cases hhas
  | ok key =>
    rw [hpath] at hhas
    replace hhas : (v.fs.file (.blob key)).isSome = true := hhas
    have hsome : ¬ (v.fs.file (.blob key)).isNone = true := by
      rw [Option.isNone_iff_eq_none]
      exact Option.isSome_iff_ne_none.mp hhas
    rw [ofExcept_ok, andThen_ok, bind_apply, get_apply, andThen_ok, if_neg hsome, hdirs,
      hdir, whenever_true hthere]
    obtain ⟨hcommitted, ⟨n, hloose⟩, hfree⟩ := clearDest_loose hne h hclears hal
    show (andThen (fun _ => linkBlob io key dest) (clearDest io dest v)).2.committed = _ ∧
      Writable p (andThen (fun _ => linkBlob io key dest) (clearDest io dest v)).2
    generalize clearDest io dest v = r at hcommitted hloose hfree ⊢
    rcases r with ⟨u | e | _, v'⟩
    · obtain ⟨hsame, hlinked⟩ := linkBlob_loose io key hne (hfree rfl) hloose
      exact ⟨hsame.trans hcommitted, hlinked.writable⟩
    · exact ⟨hcommitted, hloose.writable⟩
    · exact ⟨hcommitted, hloose.writable⟩

/-- Removing a hard link of a blob leaves the blob writable. -/
theorem removeInstallDest_loose {io : RemoveIo} {p path : StorePath} (hne : p ≠ path)
    (h : Intact strict K v) (hclears : io.Clears) (hal : v.fs.Alias p path) :
    (removeInstallDest io path v).2.committed = v.committed ∧
      Writable p (removeInstallDest io path v).2 := by
  obtain ⟨hmeta, hdir, hclears⟩ := hclears
  obtain ⟨m, hp, hpath⟩ := hal
  have hfile : v.fs.file path = some (v.fs.nodes m) := by
    rw [Inodes.file, hpath]
    rfl
  have hnotdir : ¬ io.isDir = true := by
    rw [hdir]
    exact Bool.false_ne_true
  unfold removeInstallDest
  rw [hmeta]
  show (((if io.isDir = true then _ else _) : Program Vault Error Unit) v).2.committed = _ ∧
    Writable p (((if io.isDir = true then _ else _) : Program Vault Error Unit) v).2
  rw [if_neg hnotdir, bind_apply, get_apply, andThen_ok, hfile]
  dsimp only
  -- either the permission is cleared, or there was none to clear
  have hopen : ∃ fs n, whenever ((v.fs.nodes m).readonly = true)
      (setReadonly io.clears path false) v = (.ok (), { v with fs := fs }) ∧
      Loose p n { v with fs := fs } := by
    by_cases hro : (v.fs.nodes m).readonly = true
    · obtain ⟨n, hloose⟩ := chmod_loose h ⟨m, hp, hpath⟩
      rw [whenever_true hro]
      exact ⟨_, n, setReadonly_of_works hclears, hloose⟩
    · rw [whenever_false hro]
      exact ⟨v.fs, m, rfl, hp, Bool.eq_false_iff.mpr hro, h.guards.allocated p m hp⟩
  obtain ⟨fs, n, hopened, hloose⟩ := hopen
  rw [bind_of_ok hopened]
  cases io.removeFile with
  | some reason => exact ⟨rfl, hloose.writable⟩
  | none => exact ⟨rfl, (hloose.unlink hne).writable⟩

/-- **An operation that clears the permission of a blob through a hard link leaves
a committed blob writable.** -/
theorem strips_writable (h : Intact strict K v) {op : VaultOp} (hout : Outward op)
    (hstrips : Strips v op) :
    ∃ p, ((step v op).committed p).isSome ∧ Writable p (step v op) := by
  have hne : ∀ p dest, (v.committed p).isSome → ¬ dest.Inside → p ≠ dest :=
    fun p dest hp hdest he => hdest (he ▸ h.guards.guarded_inside p hp)
  cases op with
  | materialize io blake3 dest =>
    obtain ⟨hhas, hclears, p, hp, hal⟩ := hstrips
    obtain ⟨hcommitted, hwritable⟩ := materialize_loose (hne p dest hp hout) h hhas hclears hal
    refine ⟨p, ?_, hwritable⟩
    show ((materialize io blake3 dest v).2.committed p).isSome = true
    rw [hcommitted]
    exact hp
  | removeInstallDest io path =>
    obtain ⟨hclears, p, hp, hal⟩ := hstrips
    obtain ⟨hcommitted, hwritable⟩ :=
      removeInstallDest_loose (hne p path hp hout) h hclears hal
    refine ⟨p, ?_, hwritable⟩
    show ((removeInstallDest io path v).2.committed p).isSome = true
    rw [hcommitted]
    exact hp
  | fillTemp name data => exact hstrips.elim
  | commitBlob io tmp blake3 sidecar => exact hstrips.elim
  | importFile io src blake3 sidecar => exact hstrips.elim
  | quarantine io tmp dir label => exact hstrips.elim
  | removeBlob io blake3 => exact hstrips.elim

/-! ## What is committed -/

theorem onFiles_committed {c : StorePath → Option Bytes}
    (f : Inodes StorePath Bytes → Inodes StorePath Bytes) :
    Keeps (fun v => v.committed = c) (onFiles f) :=
  Keeps.modify fun _ h => h

theorem writeFile_committed {c : StorePath → Option Bytes} (failure : WriteFailure)
    (p : StorePath) (f : FileNode Bytes) :
    Keeps (fun v => v.committed = c) (writeFile failure p f) := by
  refine Keeps.bind Keeps.get fun v => Keeps.ite (Keeps.throw _) ?_
  match failure with
  | some (reason, none) => exact Keeps.throw _
  | some (reason, some left) =>
    exact Keeps.bind (onFiles_committed _) fun _ => Keeps.throw _
  | none => exact onFiles_committed _

theorem whenever_committed {c : StorePath → Option Bytes} (cond : Prop) [Decidable cond]
    (f : Inodes StorePath Bytes → Inodes StorePath Bytes) :
    Keeps (fun v => v.committed = c) (whenever cond (onFiles f)) :=
  Keeps.whenever fun _ => onFiles_committed f

/-- A write that succeeds. -/
theorem writeFile_ok {failure : WriteFailure} {p : StorePath} {f : FileNode Bytes} {v' : Vault}
    (hok : writeFile failure p f v = (.ok (), v')) : v' = { v with fs := v.fs.put p f } := by
  unfold writeFile at hok
  rw [bind_apply, get_apply, andThen_ok] at hok
  by_cases hro : (v.fs.file p).any FileNode.readonly = true
  · rw [if_pos hro] at hok
    cases hok
  · rw [if_neg hro] at hok
    match failure with
    | some (reason, none) => cases hok
    | some (reason, some left) => cases hok
    | none => exact (congrArg Prod.snd hok).symm

theorem refuse_ok {path : Text} {reason : Option Text} {v' : Vault}
    (hok : refuse path reason v = (.ok (), v')) : v' = v := by
  cases reason with
  | none => exact (congrArg Prod.snd hok).symm
  | some reason => cases hok

/-- Publishing a file commits what it holds. -/
theorem publish_committed {p : StorePath} {key : Text} {f : FileNode Bytes}
    (hf : v.fs.file p = some f) :
    (publish p key v).2.committed (.blob key) = some f.content := by
  show Function.update v.committed (.blob key) ((v.fs.file p).map FileNode.content)
    (.blob key) = _
  rw [Function.update_self, hf]
  rfl

/-- What a commit publishes is what its temp holds. -/
theorem publishTemp_commits {io : CommitIo} {tmp key : Text} {v' : Vault}
    (hok : publishTemp io tmp key v = (.ok (), v')) :
    ∃ f, v.fs.file (.tmp tmp) = some f ∧ v'.committed (.blob key) = some f.content := by
  unfold publishTemp at hok
  rw [bind_apply, get_apply, andThen_ok] at hok
  cases hf : v.fs.file (.tmp tmp) with
  | none =>
    rw [hf] at hok
    cases hok
  | some f =>
    refine ⟨f, rfl, ?_⟩
    rw [hf] at hok
    dsimp only at hok
    by_cases hrenames : io.renames = true
    · rw [if_pos hrenames] at hok
      have hv : (publish (.tmp tmp) key v).2 = v' := congrArg Prod.snd hok
      rw [← hv]
      exact publish_committed hf
    · rw [if_neg hrenames] at hok
      obtain ⟨u, v₁, hcopy, hok⟩ := bind_eq_ok hok
      obtain ⟨u, v₂, hrename, hok⟩ := bind_eq_ok hok
      obtain ⟨u, v₃, hpublish, hok⟩ := bind_eq_ok hok
      have hcopied : v₁.fs.file (.incoming key) = some f := by
        rw [writeFile_ok hcopy]
        exact Inodes.file_put_self _ f _
      rw [← refuse_ok hrename] at hcopied
      have hv : (publish (.incoming key) key v₂).2 = v₃ := congrArg Prod.snd hpublish
      have hcommitted : v₃.committed (.blob key) = some f.content := by
        rw [← hv]
        exact publish_committed hcopied
      have hsame := whenever_committed (io.removesTemp = true)
        (Inodes.unlink (.tmp tmp)) v₃ rfl
      rw [hok] at hsame
      exact (congrFun hsame _).trans hcommitted

/-- **A commit of a blob that was not there commits what its temp holds.** -/
theorem commitBlob_commits {io : CommitIo} {tmp blake3 key : Text} {sidecar : Bytes} {v' : Vault}
    (hkey : Cas.blobPath blake3 = .ok key) (hfree : v.fs.file (.blob key) = none)
    (hok : commitBlob io tmp blake3 sidecar v = (.ok (), v')) :
    ∃ f, v.fs.file (.tmp tmp) = some f ∧ v'.committed (.blob key) = some f.content := by
  unfold commitBlob at hok
  rw [hkey, bind_apply, ofExcept_ok, andThen_ok, bind_apply, get_apply, andThen_ok, hfree] at hok
  obtain ⟨u, v₁, hdirs, hok⟩ := bind_eq_ok hok
  obtain ⟨u, v₂, hpublish, hok⟩ := bind_eq_ok hok
  rw [refuse_ok hdirs] at hpublish
  obtain ⟨f, hf, hcommitted⟩ := publishTemp_commits hpublish
  refine ⟨f, hf, ?_⟩
  have hrest : Keeps (fun v => v.committed = v₂.committed) (do
      setReadonly io.protects (.blob key) true
      writeMeta io.writeMeta key sidecar) :=
    Keeps.bind (whenever_committed _ _) fun _ =>
      Keeps.bind (refuse_keeps _ _) fun _ => writeFile_committed _ _ _
  have hsame := hrest v₂ rfl
  rw [hok] at hsame
  exact (congrFun hsame _).trans hcommitted

/-- **A blob is there with what was committed, or it is gone.** -/
theorem removeBlob_fate (io : RemoveBlobIo) (blake3 key : Text) (b : Bytes) :
    Keeps (fun v => v.committed (.blob key) = some b ∨ v.fs.names (.blob key) = none)
      (removeBlob io blake3) := by
  have hstored : ∀ p, Keeps (fun v => v.committed (.blob key) = some b ∨
      v.fs.names (.blob key) = none) (removeStored io p) := by
    refine fun p => Keeps.bind Keeps.get fun v => Keeps.whenever fun _ => ?_
    refine Keeps.bind (Keeps.whenever fun _ => Keeps.modify fun v h => ?_) fun _ =>
      Keeps.bind (refuse_keeps _ _) fun _ => Keeps.modify fun v h => ?_
    · rw [show (v.fs.chmod p false).names = v.fs.names from Inodes.names_chmod ..]
      exact h
    · by_cases hp : .blob key = p
      · exact .inr (by rw [hp]; exact Function.update_self ..)
      · exact h.imp (Function.update_of_ne hp _ _).trans (Function.update_of_ne hp _ _).trans
  exact Keeps.bind (Keeps.ofExcept _) fun key' =>
    Keeps.bind (hstored _) fun _ => hstored _

/-! ## Every run -/

/-- An operation that takes the permission of no committed blob. -/
def Careful (v : Vault) (op : VaultOp) : Prop := Obliging op ∧ ¬ Strips v op

/-- Every committed blob is read-only, which the threat model promises of the store. -/
def ReadOnly (v : Vault) : Prop :=
  ∀ p, (v.committed p).isSome → ∃ f, v.fs.file p = some f ∧ f.readonly = true

/-- **Committed blobs are intact after every run**, whether or not their
permission is asked for. -/
theorem run_intact (h : Intact strict K v) {ops : List VaultOp} (hout : ∀ op ∈ ops, Outward op)
    (hK : ∀ p b, K p = some b → ∃ key, p = .blob key ∧ ∀ op ∈ ops, ¬ Removes key op)
    (hcareful : strict → Along step Careful ops v) : Intact strict K (ops.foldl step v) := by
  induction ops generalizing v with
  | nil => exact h
  | cons op ops ih =>
    refine ih (step_intact h (hout op (.head _)) (fun p b hp => ?_) fun hs => (hcareful hs).1)
      (fun op' hop => hout op' (.tail _ hop)) (fun p b hp => ?_) fun hs => (hcareful hs).2
    · obtain ⟨key, he, hnot⟩ := hK p b hp
      exact ⟨key, he, hnot op (.head _)⟩
    · obtain ⟨key, he, hnot⟩ := hK p b hp
      exact ⟨key, he, fun op' hop => hnot op' (.tail _ hop)⟩

theorem Intact.readOnly (h : Intact strict K v) (hs : strict) : ReadOnly v := by
  intro p hp
  obtain ⟨b, hb⟩ := Option.isSome_iff_exists.mp hp
  obtain ⟨n, hn, -⟩ := h.guards.kept p b hb
  exact ⟨v.fs.nodes n, by rw [Inodes.file, hn]; rfl, h.closed hs p hp n hn⟩

/-- **Committed blobs stay as they were committed.** After any run of commits,
imports, views made and removed, quarantines and removals, with whatever answers
of the operating system, in which views are outside the store:

* every committed blob is there with the bytes it was committed with, and
  read-only if no operation of the run cleared its permission;
* an operation leaves a committed blob committed, unless it is its removal and
  the blob is gone;
* if all went well so far, an operation the operating system carries out leaves
  every committed blob read-only exactly if it does not materialize over, or
  remove, a hard link of one. -/
theorem blobs_stay (ops : List VaultOp) (hout : ∀ op ∈ ops, Outward op) :
    (∀ p b, (runOps ops).committed p = some b → ∃ f, (runOps ops).fs.file p = some f ∧
        f.content = b ∧ (Along step Careful ops empty → f.readonly = true)) ∧
      (∀ op key b, Outward op → (runOps ops).committed (.blob key) = some b →
        (step (runOps ops) op).committed (.blob key) = some b ∨
          Removes key op ∧ (step (runOps ops) op).fs.file (.blob key) = none) ∧
      ∀ op, Outward op → Obliging op → Along step Careful ops empty →
        (ReadOnly (step (runOps ops) op) ↔ ¬ Strips (runOps ops) op) := by
  have hrun : Intact (Along step Careful ops empty) (fun _ => none) (runOps ops) :=
    run_intact (Intact.empty _) hout (by rintro _ _ ⟨⟩) id
  refine ⟨fun p b hp => ?_, fun op key b hop hb => ?_, fun op hop hobliging hall => ?_⟩
  · obtain ⟨n, hn, hb⟩ := hrun.guards.kept p b hp
    refine ⟨(runOps ops).fs.nodes n, by rw [Inodes.file, hn]; rfl, hb, fun hall => ?_⟩
    exact hrun.closed hall p (by rw [hp]; rfl) n hn
  -- an operation that does not remove `key` keeps it even with `key` added to what is remembered
  · by_cases hremoves : Removes key op
    · cases op with
      | removeBlob io blake3 =>
        refine (removeBlob_fate io blake3 key b (runOps ops) (.inl hb)).imp_right fun hgone => ?_
        exact ⟨hremoves, Inodes.file_eq_none.mpr hgone⟩
      | _ => exact hremoves.elim
    · have hremember : Intact False (fun p => if p = .blob key then some b else none)
          (runOps ops) := by
        refine ⟨hrun.guards, False.elim, hrun.blobs, fun p b' hp => ?_⟩
        by_cases he : p = .blob key
        · rw [if_pos he] at hp
          cases hp
          rw [he]
          exact hb
        · rw [if_neg he] at hp
          cases hp
      have hnext := step_intact hremember hop (fun p b' hp => ?_) False.elim
      · exact .inl (hnext.remembered _ b (if_pos rfl))
      · by_cases he : p = .blob key
        · exact ⟨key, he, hremoves⟩
        · rw [if_neg he] at hp
          cases hp
  -- a strip needs a committed file under the destination's name, and that file then is writable
  · refine ⟨fun hro hstrips => ?_, fun hnot => ?_⟩
    · obtain ⟨p, hp, f, hf, hwritable⟩ := strips_writable hrun hop hstrips
      obtain ⟨f', hf', hreadonly⟩ := hro p hp
      rw [hf] at hf'
      cases hf'
      cases hreadonly.symm.trans hwritable
    · exact (step_intact hrun hop (by rintro _ _ ⟨⟩) fun _ => ⟨hobliging, hnot⟩).readOnly hall

/-! ## A hard link materialized over -/

/-- A key and a view of it, for the run in which a blob loses its read-only bit. -/
def sampleKey : Text := "abcd".toList

/-- A place outside the store, where a model is installed. -/
def sampleView : StorePath := .outside ["models".toList, "model.bin".toList]

/-- A commit in which every call of the operating system succeeds and the temp is renamed at
once. -/
def committing : CommitIo where
  createDirAll := none
  renames := true
  copy := none
  renameIncoming := none
  removesTemp := true
  protects := true
  writeMeta := ⟨none, none⟩

/-- Every call succeeds, on a file system with hard links and without clones. -/
def linking : MaterializeIo where
  createDirAll := none
  isDir := none
  clears := true
  removeFile := none
  reflink := none
  hardLinks := true
  copy := none
  opens := true

/-- A blob committed, and a hard link of it as its view. -/
def linked : List VaultOp :=
  [.fillTemp "t".toList [1, 2, 3], .commitBlob committing "t".toList sampleKey [],
    .materialize linking sampleKey sampleView]

theorem linked_outward : ∀ op ∈ linked, Outward op := by
  intro op hop
  simp only [linked, List.mem_cons, List.not_mem_nil, or_false] at hop
  rcases hop with rfl | rfl | rfl
  · trivial
  · trivial
  · exact id

theorem linked_careful : Along step Careful linked empty := by
  refine ⟨⟨trivial, id⟩, ⟨rfl, id⟩, ⟨trivial, ?_⟩, trivial⟩
  rintro ⟨-, -, q, -, n, -, hn⟩
  have hnone : (runOps (linked.take 2)).fs.names sampleView = none := by decide +kernel
  exact absurd (hn.symm.trans hnone) nofun

/-- **Materializing once more at the same place leaves the blob writable.** -/
theorem rematerialized_writable :
    (∀ op ∈ linked ++ [.materialize linking sampleKey sampleView], Outward op) ∧
      (runOps (linked ++ [.materialize linking sampleKey sampleView])).committed
        (.blob sampleKey) = some [1, 2, 3] ∧
      (runOps (linked ++ [.materialize linking sampleKey sampleView])).fs.file
        (.blob sampleKey) = some ⟨[1, 2, 3], false⟩ := by
  refine ⟨fun op hop => ?_, by decide +kernel, by decide +kernel⟩
  rcases List.mem_append.mp hop with hop | hop
  · exact linked_outward op hop
  · cases List.mem_singleton.mp hop
    exact id

/-- The first view leaves the blob as it was committed, and the second would not. -/
theorem linked_stays :
    (∃ f, (runOps linked).fs.file (.blob sampleKey) = some f ∧ f.content = [1, 2, 3] ∧
      f.readonly = true) ∧
      ¬ ReadOnly (step (runOps linked) (.materialize linking sampleKey sampleView)) := by
  obtain ⟨hkept, -, hexact⟩ := blobs_stay linked linked_outward
  obtain ⟨f, hf, hcontent, hreadonly⟩ := hkept (.blob sampleKey) [1, 2, 3] (by decide +kernel)
  refine ⟨⟨f, hf, hcontent, hreadonly linked_careful⟩, fun hro => ?_⟩
  refine (hexact (.materialize linking sampleKey sampleView) id trivial linked_careful).mp hro
    ⟨by decide +kernel, ⟨rfl, rfl, rfl⟩,
    .blob sampleKey, by decide +kernel, ?_⟩
  show (runOps linked).fs.Alias (.blob sampleKey) sampleView
  decide +kernel

end Vault

end Atlas
