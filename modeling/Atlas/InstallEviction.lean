import Atlas.CacheRuns
import Atlas.Installs

/-!
# What evicting a blob does to the views of others

The views of a blob are found by its key and removed by their destination. Two
things about the state an eviction starts from decide whether it removes these
views and nothing else: whether a view of an evicted blob still names a place
that holds the content of another one, which is what materializing over it
leaves behind, and whether every row of an evicted blob spells its key as the
eviction does. `Apart` says that neither is the case, and an eviction that
returns does what it is for exactly from such states (`evictCache_exact`).
-/

namespace Atlas

open Text Program Transition

variable {D : Digests} {locate : Text → Place} {os : Os}

namespace Machine

/-! ## Removing views -/

/-- Rows and files have only gone, and only those of some destinations. -/
structure Shrunk (locate : Text → Place) (dests : List Text) (h h' : Machine) : Prop where
  fewer : ∀ i ∈ h'.disk.installs, i ∈ h.disk.installs
  rows : ∀ i ∈ h.disk.installs, i.destPath ∉ dests → i ∈ h'.disk.installs
  files : ∀ p, (∀ d ∈ dests, ¬ locate d <+: p) →
    FileTree.contentAt p h'.files = FileTree.contentAt p h.files
  lost : ∀ p, FileTree.contentAt p h'.files = FileTree.contentAt p h.files ∨
    FileTree.contentAt p h'.files = none

/-- The rows and the files of some destinations are gone: no row has any of them, and no
file is at or below the place of one. -/
structure Cleared (locate : Text → Place) (dests : List Text) (h : Machine) : Prop where
  rows : ∀ i ∈ h.disk.installs, i.destPath ∉ dests
  files : ∀ d ∈ dests, ∀ p, locate d <+: p → FileTree.contentAt p h.files = none

namespace Shrunk

theorem refl (dests : List Text) (h : Machine) : Shrunk locate dests h h :=
  ⟨fun _ hi => hi, fun _ hi _ => hi, fun _ _ => rfl, fun _ => Or.inl rfl⟩

theorem mono {dests dests' : List Text} {h h' : Machine} (hs : Shrunk locate dests h h')
    (hsub : ∀ d ∈ dests, d ∈ dests') : Shrunk locate dests' h h' :=
  ⟨hs.fewer, fun i hi hnot => hs.rows i hi fun hd => hnot (hsub _ hd),
    fun p hp => hs.files p fun d hd => hp d (hsub d hd), hs.lost⟩

theorem trans {dests : List Text} {h h₁ h' : Machine} (hs : Shrunk locate dests h h₁)
    (hs' : Shrunk locate dests h₁ h') : Shrunk locate dests h h' := by
  refine ⟨fun i hi => hs.fewer i (hs'.fewer i hi),
    fun i hi hnot => hs'.rows i (hs.rows i hi hnot) hnot,
    fun p hp => (hs'.files p hp).trans (hs.files p hp), fun p => ?_⟩
  obtain hsame | hnone := hs'.lost p
  · rw [hsame]
    exact hs.lost p
  · exact Or.inr hnone

/-- What is cleared stays cleared. -/
theorem cleared {dests dests' : List Text} {h h' : Machine} (hs : Shrunk locate dests' h h')
    (hc : Cleared locate dests h) : Cleared locate dests h' := by
  refine ⟨fun i hi => hc.rows i (hs.fewer i hi), fun d hd p hp => ?_⟩
  obtain hsame | hnone := hs.lost p
  · exact hsame.trans (hc.files d hd p hp)
  · exact hnone

end Shrunk

theorem Cleared.append {dests dests' : List Text} {h : Machine} (hc : Cleared locate dests h)
    (hc' : Cleared locate dests' h) : Cleared locate (dests ++ dests') h := by
  refine ⟨fun i hi hmem => ?_, fun d hd p hp => ?_⟩
  · exact (List.mem_append.mp hmem).elim (hc.rows i hi) (hc'.rows i hi)
  · exact (List.mem_append.mp hd).elim (hc.files d · p hp) (hc'.files d · p hp)

/-- What removing what is at a destination comes to. -/
theorem removeInstallDest_spec (locate : Text → Place) (os : Os) (dest : Text)
    (h : Machine) :
    ∃ files, (removeInstallDest locate os dest h).2 = { h with files := files } ∧
      (∀ p, ¬ locate dest <+: p →
        FileTree.contentAt p files = FileTree.contentAt p h.files) ∧
      (∀ p, FileTree.contentAt p files = FileTree.contentAt p h.files ∨
        FileTree.contentAt p files = none) ∧
      ((removeInstallDest locate os dest h).1 = .ok () →
        files = FileTree.removeTree (locate dest) h.files) := by
  have hsame : ∀ p, FileTree.contentAt p h.files = FileTree.contentAt p h.files ∨
      FileTree.contentAt p h.files = none := fun _ => Or.inl rfl
  unfold removeInstallDest
  rw [bind_apply, get_apply, andThen_ok]
  cases os.symlinkMetadata dest with
  | some reason => exact ⟨h.files, rfl, fun _ _ => rfl, hsame, fun hok => nomatch hok⟩
  | none =>
    by_cases hdir : FileTree.isDir (locate dest) h.files = true
    · simp only [if_pos hdir]
      cases os.removeDirAll dest with
      | some failure =>
        exact ⟨_, rfl, fun p hp => FileTree.contentAt_removeBelow_of_not hp _ _,
          fun p => FileTree.contentAt_removeBelow_or _ _ p _, fun hok => nomatch hok⟩
      | none =>
        exact ⟨_, rfl, fun p hp => FileTree.contentAt_removeTree_of_not hp _,
          fun p => FileTree.contentAt_removeTree_or _ p _, fun _ => rfl⟩
    · have hfile := Bool.not_eq_true _ ▸ hdir
      simp only [if_neg hdir]
      by_cases hthere : (FileTree.contentAt (locate dest) h.files).isSome = true
      · simp only [if_pos hthere]
        cases os.removeFile dest with
        | some reason => exact ⟨h.files, rfl, fun _ _ => rfl, hsame, fun hok => nomatch hok⟩
        | none =>
          refine ⟨_, rfl, fun p hp => FileTree.contentAt_unlink_of_ne (fun he => ?_) _,
            fun p => FileTree.contentAt_unlink_or _ p _,
            fun _ => FileTree.unlink_eq_removeTree hfile⟩
          exact hp (he ▸ List.prefix_rfl)
      · simp only [if_neg hthere]
        refine ⟨h.files, rfl, fun _ _ => rfl, hsame, fun _ => ?_⟩
        exact (FileTree.removeTree_eq_self hfile (Option.not_isSome_iff_eq_none.mp hthere)).symm

/-- Removing a view touches neither the store nor the index. -/
theorem dropView_cache (dest : Text) (h : Machine) :
    (dropView locate os dest h).2.disk.cache = h.disk.cache := by
  obtain ⟨files, hstate, -⟩ := removeInstallDest_spec locate os dest h
  unfold dropView
  rw [bind_apply]
  generalize removeInstallDest locate os dest h = r at hstate ⊢
  rcases r with ⟨u | e | _, h₁⟩
  all_goals
    obtain rfl : h₁ = { h with files := files } := hstate
    rfl

theorem dropView_shrunk (dest : Text) (h : Machine) :
    Shrunk locate [dest] h (dropView locate os dest h).2 := by
  obtain ⟨files, hstate, hkept, hlost, -⟩ :=
    removeInstallDest_spec locate os dest h
  have hfiles : ∀ p, (∀ d ∈ [dest], ¬ locate d <+: p) →
      FileTree.contentAt p files = FileTree.contentAt p h.files :=
    fun p hp => hkept p (hp dest (List.mem_singleton_self dest))
  unfold dropView
  rw [bind_apply]
  generalize removeInstallDest locate os dest h = r at hstate ⊢
  rcases r with ⟨u | e | _, h₁⟩
  · obtain rfl : h₁ = { h with files := files } := hstate
    refine ⟨fun i hi => List.mem_of_mem_filter hi, fun i hi hnot => ?_, hfiles, hlost⟩
    exact List.mem_filter.mpr ⟨hi, decide_eq_true fun he => hnot (List.mem_singleton.mpr he)⟩
  all_goals
    obtain rfl : h₁ = { h with files := files } := hstate
    exact ⟨fun _ hi => hi, fun _ hi _ => hi, hfiles, hlost⟩

/-- A view that was removed is gone, row and file. -/
theorem dropView_cleared {dest : Text} {h h' : Machine}
    (hok : dropView locate os dest h = (.ok (), h')) : Cleared locate [dest] h' := by
  obtain ⟨files, hstate, -, -, hgone⟩ :=
    removeInstallDest_spec locate os dest h
  obtain ⟨u, h₁, hremove, hdelete⟩ := bind_eq_ok hok
  rw [hremove] at hstate hgone
  obtain rfl : h₁ = { h with files := files } := hstate
  obtain rfl := hgone rfl
  cases hdelete
  refine ⟨fun i hi hmem => ?_, fun d hd p hp => ?_⟩
  · exact of_decide_eq_true (List.mem_filter.mp hi).2 (List.mem_singleton.mp hmem)
  · rw [List.mem_singleton.mp hd] at hp
    exact FileTree.contentAt_removeTree hp _

/-- Removing the views of some destinations. -/
theorem dropViews_spec (locate : Text → Place) (os : Os) (dests : List Text) (h : Machine) :
    (dests.forM (dropView locate os) h).2.disk.cache = h.disk.cache ∧
      Shrunk locate dests h (dests.forM (dropView locate os) h).2 := by
  refine forM_relates (R := fun dests h h' =>
    h'.disk.cache = h.disk.cache ∧ Shrunk locate dests h h') ?_ ?_ ?_ ?_ dests h
  · exact fun h => ⟨rfl, Shrunk.refl [] h⟩
  · exact fun d ds h h' hd =>
      ⟨hd.1, hd.2.mono fun x hx => List.mem_singleton.mp hx ▸ List.mem_cons_self⟩
  · intro d ds h h₁ h' hd hds
    refine ⟨hds.1.trans hd.1, Shrunk.trans (?_ : Shrunk locate _ h h₁) ?_⟩
    · exact hd.2.mono fun x hx => List.mem_singleton.mp hx ▸ List.mem_cons_self
    · exact hds.2.mono fun x hx => List.mem_cons_of_mem d hx
  · exact fun d h => ⟨dropView_cache d h, dropView_shrunk d h⟩

theorem dropViews_cleared {dests : List Text} {h h' : Machine}
    (hok : dests.forM (dropView locate os) h = (.ok (), h')) : Cleared locate dests h' := by
  induction dests generalizing h with
  | nil => exact ⟨fun _ _ => List.not_mem_nil, fun _ hd => absurd hd List.not_mem_nil⟩
  | cons d ds ih =>
    obtain ⟨u, h₁, hd, hds⟩ := bind_eq_ok hok
    have hshrunk := (dropViews_spec locate os ds h₁).2
    rw [hds] at hshrunk
    exact (hshrunk.cleared (dropView_cleared hd)).append (ih hds)

/-! ## Evicting blobs -/

theorem mem_viewsOf {installs : List InstallRow} {k d : Text} :
    d ∈ viewsOf installs k ↔ ∃ j ∈ installs, j.blake3 = k ∧ j.destPath = d := by
  simp only [viewsOf, List.mem_map, List.mem_filter, List.mem_reverse, decide_eq_true_eq,
    and_assoc]

/-- The destinations of the views of some blobs, blob after blob. -/
def viewsOfAll (installs : List InstallRow) (ks : List Text) : List Text :=
  ks.flatMap (viewsOf installs)

theorem mem_viewsOfAll {installs : List InstallRow} {ks : List Text} {d : Text} :
    d ∈ viewsOfAll installs ks ↔ ∃ j ∈ installs, j.blake3 ∈ ks ∧ j.destPath = d := by
  unfold viewsOfAll
  rw [List.mem_flatMap]
  constructor
  · rintro ⟨k, hk, hd⟩
    obtain ⟨j, hj, rfl, hdest⟩ := mem_viewsOf.mp hd
    exact ⟨j, hj, hk, hdest⟩
  · rintro ⟨j, hj, hk, hdest⟩
    exact ⟨j.blake3, hk, mem_viewsOf.mpr ⟨j, hj, rfl, hdest⟩⟩

/-- Without views to take, the engine's eviction leaves the views alone. -/
theorem evictOne_nil_installs (k : Text) (d : Disk) :
    (Atlas.evictOne [] k d).2.installs = d.installs := by
  have hall : (d.installs.filter fun i => !([] : List Text).contains i.destPath) =
      d.installs := List.filter_eq_self.mpr fun _ _ => rfl
  unfold Atlas.evictOne
  simp only [bind_apply, modify_apply, andThen_ok, get_apply]
  cases hpath : Cas.blobPath k with
  | error e =>
    simp only [Cas.blobMeta, hpath, ofExcept_error, andThen_err]
    exact hall
  | ok key =>
    simp only [Cas.blobMeta, Cas.removeBlob, hpath, ofExcept_ok, andThen_ok, bind_apply,
      modify_apply]
    exact hall

/-- What evicting one blob does at most. -/
theorem evictOne_shrunk (locate : Text → Place) (os : Os) (installs : List InstallRow)
    (k : Text) (h : Machine) :
    Shrunk locate (viewsOf installs k) h (evictOne locate os installs k h).2 ∧
      ((evictOne locate os installs k h).2.disk.cache = h.disk.cache ∨
        Evicted [k] h.disk.cache (evictOne locate os installs k h).2.disk.cache) := by
  obtain ⟨hcache, hshrunk⟩ := dropViews_spec locate os
    (viewsOf installs k) h
  unfold evictOne
  rw [bind_apply]
  generalize (viewsOf installs k).forM (dropView locate os) h = r at hcache hshrunk ⊢
  rcases r with ⟨u | e | _, h₁⟩
  · rw [andThen_ok, onDisk_apply, ← show h₁.disk.cache = h.disk.cache from hcache]
    refine ⟨hshrunk.trans ⟨fun i hi => ?_, fun i hi _ => ?_, fun _ _ => rfl,
      fun _ => Or.inl rfl⟩, ?_⟩
    · exact (evictOne_nil_installs k h₁.disk) ▸ hi
    · exact (evictOne_nil_installs k h₁.disk).symm ▸ hi
    · obtain ⟨e, -, -, hsame⟩ | ⟨-, -, hevicted⟩ := Atlas.evictOne_spec [] k h₁.disk
      · exact Or.inl hsame
      · exact Or.inr hevicted
  · exact ⟨hshrunk, Or.inl hcache⟩
  · exact ⟨hshrunk, Or.inl hcache⟩

/-- What evicting one blob does when it returns. -/
theorem evictOne_ok {installs : List InstallRow} {k : Text} {h h' : Machine}
    (hok : evictOne locate os installs k h = (.ok (), h')) :
    Cleared locate (viewsOf installs k) h' ∧ Evicted [k] h.disk.cache h'.disk.cache := by
  obtain ⟨u, h₁, hviews, hengine⟩ := bind_eq_ok hok
  have hcache := (dropViews_spec locate os (viewsOf installs k) h).1
  rw [hviews] at hcache
  have hcleared := dropViews_cleared hviews
  rw [onDisk_apply, Prod.mk.injEq] at hengine
  obtain ⟨hexit, rfl⟩ := hengine
  refine ⟨⟨fun i hi => ?_, hcleared.files⟩, ?_⟩
  · exact hcleared.rows i ((evictOne_nil_installs k h₁.disk) ▸ hi)
  · rw [← hcache]
    obtain ⟨e, -, herr, -⟩ | ⟨-, -, hevicted⟩ := Atlas.evictOne_spec [] k h₁.disk
    · rw [herr] at hexit
      cases hexit
    · exact hevicted

theorem evictAll_shrunk (locate : Text → Place) (os : Os) (installs : List InstallRow)
    (ks : List Text) (h : Machine) :
    Shrunk locate (viewsOfAll installs ks) h (ks.forM (evictOne locate os installs) h).2 := by
  have hhead : ∀ k ks d, d ∈ viewsOfAll installs [k] → d ∈ viewsOfAll installs (k :: ks) := by
    intro k ks d hd
    obtain ⟨j, hj, hk, hdest⟩ := mem_viewsOfAll.mp hd
    exact mem_viewsOfAll.mpr
      ⟨j, hj, List.mem_singleton.mp hk ▸ List.mem_cons_self, hdest⟩
  have htail : ∀ k ks d, d ∈ viewsOfAll installs ks → d ∈ viewsOfAll installs (k :: ks) := by
    intro k ks d hd
    obtain ⟨j, hj, hk, hdest⟩ := mem_viewsOfAll.mp hd
    exact mem_viewsOfAll.mpr ⟨j, hj, List.mem_cons_of_mem k hk, hdest⟩
  refine forM_relates (R := fun ks h h' => Shrunk locate (viewsOfAll installs ks) h h')
    ?_ ?_ ?_ ?_ ks h
  · exact fun h => Shrunk.refl _ h
  · exact fun k ks h h' hk => hk.mono (hhead k ks)
  · exact fun k ks h h₁ h' hk hks => (hk.mono (hhead k ks)).trans (hks.mono (htail k ks))
  · intro k h
    rw [viewsOfAll, List.flatMap_singleton]
    exact (evictOne_shrunk locate os installs k h).1

theorem evictAll_ok {installs : List InstallRow} {ks : List Text} {h h' : Machine}
    (hok : ks.forM (evictOne locate os installs) h = (.ok (), h')) :
    Cleared locate (viewsOfAll installs ks) h' ∧ Evicted ks h.disk.cache h'.disk.cache := by
  induction ks generalizing h with
  | nil =>
    cases hok
    exact ⟨⟨fun _ _ => List.not_mem_nil, fun _ hd => absurd hd List.not_mem_nil⟩,
      Evicted.nil _⟩
  | cons k ks ih =>
    obtain ⟨u, h₁, hk, hks⟩ := bind_eq_ok hok
    obtain ⟨hcleared, hevicted⟩ := evictOne_ok hk
    obtain ⟨hcleared', hevicted'⟩ := ih hks
    have hshrunk := evictAll_shrunk locate os installs ks h₁
    rw [hks] at hshrunk
    exact ⟨(hshrunk.cleared hcleared).append hcleared', hevicted.trans hevicted'⟩

/-- An eviction goes through the blobs its policy names. -/
theorem evictCache_eq (policy : EvictPolicy) (h : Machine) :
    (evictCache locate os policy h).2 =
      ((evicted policy h.disk).forM (evictOne locate os h.disk.installs) h).2 := by
  unfold evictCache
  rw [bind_apply, get_apply, andThen_ok, bind_apply]
  rcases (evicted policy h.disk).forM (evictOne locate os h.disk.installs) h with
    ⟨_ | _ | _, h'⟩ <;> rfl

theorem evictCache_ok {policy : EvictPolicy} {h h' : Machine} {ks : List Text}
    (hok : evictCache locate os policy h = (.ok ks, h')) :
    (evicted policy h.disk).forM (evictOne locate os h.disk.installs) h = (.ok (), h') := by
  obtain ⟨h₀, h₁, hget, hok⟩ := bind_eq_ok hok
  cases hget
  obtain ⟨u, h₂, hall, hpure⟩ := bind_eq_ok hok
  cases hpure
  exact hall

/-! ## The engine's eviction

Where the operating system refuses nothing, evicting does to the store and its
tables what the engine's own `evictCache` does. -/

theorem dropView_willing (locate : Text → Place) (kind : LinkKind) (dest : Text) (h : Machine) :
    ∃ files, dropView locate (.willing kind) dest h =
      (.ok (), deleteInstallByDest dest { h with files := files }) := by
  unfold dropView removeInstallDest
  simp only [bind_apply, get_apply, andThen_ok, Os.willing]
  split
  · exact ⟨_, rfl⟩
  · split
    · exact ⟨_, rfl⟩
    · exact ⟨_, rfl⟩

/-- The tables without the views of some destinations; the cache is not touched. -/
def dropDests (dests : List Text) (d : Disk) : Disk :=
  { d with
    dests := d.dests.filter fun dest => !dests.contains dest
    installs := d.installs.filter fun i => !dests.contains i.destPath }

theorem dropDests_nil (d : Disk) : dropDests [] d = d := by
  have hinstalls : (d.installs.filter fun i => !([] : List Text).contains i.destPath) =
      d.installs := List.filter_eq_self.mpr fun _ _ => rfl
  have hdests : (d.dests.filter fun dest => !([] : List Text).contains dest) = d.dests :=
    List.filter_eq_self.mpr fun _ _ => rfl
  unfold dropDests
  rw [hinstalls, hdests]

theorem dropDests_congr {dests dests' : List Text} (h : ∀ d, d ∈ dests ↔ d ∈ dests')
    (d : Disk) : dropDests dests d = dropDests dests' d := by
  have hcontains : ∀ x, dests.contains x = dests'.contains x := fun x => by
    rw [Bool.eq_iff_iff, List.contains_iff_mem, List.contains_iff_mem]
    exact h x
  unfold dropDests
  simp only [hcontains]

theorem dropDests_cons (dest : Text) (dests : List Text) (h : Machine) :
    dropDests dests (deleteInstallByDest dest h).disk = dropDests (dest :: dests) h.disk := by
  have hand : ∀ x, ((!dests.contains x) && decide (x ≠ dest)) = !(dest :: dests).contains x := by
    intro x
    rw [List.contains_cons, Bool.not_or, Bool.and_comm]
    congr 1
    by_cases hx : x = dest <;> simp [hx]
  unfold dropDests deleteInstallByDest
  simp only [List.filter_filter, hand]

theorem dropViews_willing (locate : Text → Place) (kind : LinkKind) (dests : List Text)
    (h : Machine) :
    (dests.forM (dropView locate (.willing kind)) h).1 = .ok () ∧
      (dests.forM (dropView locate (.willing kind)) h).2.disk = dropDests dests h.disk := by
  induction dests generalizing h with
  | nil => exact ⟨rfl, (dropDests_nil h.disk).symm⟩
  | cons dest dests ih =>
    obtain ⟨files, hdrop⟩ := dropView_willing locate kind dest h
    have hrest := ih (deleteInstallByDest dest { h with files := files })
    rw [dropDests_cons] at hrest
    have hcons : (dest :: dests).forM (dropView locate (.willing kind)) h =
        dests.forM (dropView locate (.willing kind))
          (deleteInstallByDest dest { h with files := files }) := bind_of_ok hdrop
    rw [hcons]
    exact hrest

/-- The engine's eviction of one blob, from where its views are gone. -/
theorem evictOne_eq (installs : List InstallRow) (k : Text) (d : Disk) :
    Atlas.evictOne installs k d = Atlas.evictOne [] k (dropDests
      ((installs.filter fun i => i.blake3 = k).map InstallRow.destPath) d) := by
  have hrest : ∀ installs d, Atlas.evictOne installs k d =
      (do
        let d ← get
        let _ ← ofExcept (Cas.blobMeta d.cache k)
        let cache ← ofExcept (Cas.removeBlob k d.cache)
        modify fun d => { d with
          cache := { cache with rows := Db.deleteCacheBlob k cache.rows } } :
            Program Disk Error Unit) (dropDests
        ((installs.filter fun i => i.blake3 = k).map InstallRow.destPath) d) :=
    fun _ _ => rfl
  rw [hrest, hrest [], List.filter_nil, List.map_nil, dropDests_nil]

theorem evictOne_projects (locate : Text → Place) (kind : LinkKind)
    (installs : List InstallRow) (k : Text) :
    Projects disk (evictOne locate (.willing kind) installs k)
      (Atlas.evictOne installs k) := by
  intro h
  obtain ⟨hok, hdisk⟩ := dropViews_willing locate kind (viewsOf installs k) h
  have hsame : ∀ dest, dest ∈ viewsOf installs k ↔
      dest ∈ (installs.filter fun i => i.blake3 = k).map InstallRow.destPath := by
    intro dest
    simp only [viewsOf, List.mem_map, List.mem_filter, List.mem_reverse]
  unfold evictOne
  rw [evictOne_eq, ← dropDests_congr hsame, ← hdisk, bind_of_ok (eq_of_fst_eq hok)]
  rfl

/-- **The engine's eviction is what an eviction does to the store**, where the
operating system refuses nothing. -/
theorem evictCache_projects (kind : LinkKind) (policy : EvictPolicy) :
    Projects disk (evictCache locate (.willing kind) policy) (Atlas.evictCache policy) := by
  intro h
  have hall := Projects.bind (f := fun _ => Pure.pure (evicted policy h.disk))
    (g := fun _ => Pure.pure (evicted policy h.disk))
    (Projects.forM (evictOne_projects locate kind h.disk.installs)
      (evicted policy h.disk)) fun _ => Projects.pure _
  exact hall h

/-! ## What an eviction is for -/

/-- The destination of a view holds the content of a blob: the view can be read as it was
installed, which is what an eviction of others must preserve. -/
def Holds (locate : Text → Place) (h : Machine) (i : InstallRow) (key : Text) : Prop :=
  ∃ b, FileTree.contentAt (locate i.destPath) h.files = some b ∧
    h.disk.cache.blobs key = some b

/-- The files the evicted blobs have in the store, which go by the key in lower case,
whatever the spelling in the rows is. -/
def evictedFiles (ks : List Text) : List Text := ks.map toAsciiLowercase

/-- **The views of other blobs are left alone**: a view whose destination holds
the content of a blob that is not evicted keeps its file and its row. -/
def SparesOthers (locate : Text → Place) (ks : List Text) (h h' : Machine) : Prop :=
  ∀ i ∈ h.disk.installs, ∀ key, Holds locate h i key → key ∉ evictedFiles ks →
    FileTree.contentAt (locate i.destPath) h'.files =
      FileTree.contentAt (locate i.destPath) h.files ∧ i ∈ h'.disk.installs

/-- **Nothing of the evicted blobs is left**: no blob, no cache row and no
install row. -/
structure LeavesNothing (ks : List Text) (h : Machine) : Prop where
  blobs : ∀ key ∈ evictedFiles ks, h.disk.cache.blobs key = none
  rows : ∀ row ∈ h.disk.cache.rows, row.blake3.toAsciiLowercase ∉ evictedFiles ks
  installs : ∀ i ∈ h.disk.installs, i.blake3.toAsciiLowercase ∉ evictedFiles ks

/-- **The evicted blobs stand apart**: no view of one names a place at or above
another view that holds the content of a blob that stays, and rows of evicted
blobs, in either table, go by the spelling the eviction goes by or, in the table
of views, share their destination with one that does. -/
structure Apart (locate : Text → Place) (ks : List Text) (h : Machine) : Prop where
  places : ∀ j ∈ h.disk.installs, j.blake3 ∈ ks → ∀ i ∈ h.disk.installs,
    locate j.destPath <+: locate i.destPath → ∀ key, Holds locate h i key →
      key ∈ evictedFiles ks
  rows : ∀ row ∈ h.disk.cache.rows, row.blake3.toAsciiLowercase ∈ evictedFiles ks →
    row.blake3 ∈ ks
  installs : ∀ i ∈ h.disk.installs, i.blake3.toAsciiLowercase ∈ evictedFiles ks →
    ∃ j ∈ h.disk.installs, j.blake3 ∈ ks ∧ j.destPath = i.destPath

/-- Evicting blobs that stand apart spares the others, however it ends. -/
theorem Apart.spares {policy : EvictPolicy} {h : Machine}
    (ha : Apart locate (evicted policy h.disk) h) (os : Os) :
    SparesOthers locate (evicted policy h.disk) h (evictCache locate os policy h).2 := by
  intro i hi key hholds hkey
  rw [evictCache_eq]
  have hshrunk := evictAll_shrunk locate os h.disk.installs
    (evicted policy h.disk) h
  have hoff : ∀ d ∈ viewsOfAll h.disk.installs (evicted policy h.disk),
      ¬ locate d <+: locate i.destPath := by
    intro d hd hprefix
    obtain ⟨j, hj, hk, rfl⟩ := mem_viewsOfAll.mp hd
    exact hkey (ha.places j hj hk i hi hprefix key hholds)
  exact ⟨hshrunk.files _ hoff, hshrunk.rows i hi fun hd => hoff _ hd List.prefix_rfl⟩

/-- **An eviction that returns spares the others and leaves nothing exactly if
the evicted blobs stood apart.** -/
theorem evictCache_exact {policy : EvictPolicy} {h h' : Machine} {ks : List Text}
    (hok : evictCache locate os policy h = (.ok ks, h')) :
    (SparesOthers locate (evicted policy h.disk) h h' ∧
      LeavesNothing (evicted policy h.disk) h') ↔ Apart locate (evicted policy h.disk) h := by
  have hall := evictCache_ok hok
  have hshrunk := evictAll_shrunk locate os h.disk.installs
    (evicted policy h.disk) h
  rw [hall] at hshrunk
  obtain ⟨hcleared, hevicted⟩ := evictAll_ok hall
  have hblobs : ∀ key ∈ evictedFiles (evicted policy h.disk),
      h'.disk.cache.blobs key = none := fun key hkey => by
    rw [hevicted.blobs]
    exact if_pos hkey
  constructor
  -- a view that overlaps an evicted one would lose its bytes, and a row of the same file would stay
  -- without them
  · rintro ⟨hspares, hnothing⟩
    refine ⟨fun j hj hk i hi hprefix key hholds => ?_, fun row hrow hkey => ?_,
      fun i hi hkey => ?_⟩
    · by_contra hkey
      obtain ⟨b, hcontent, -⟩ := id hholds
      have hsame := (hspares i hi key hholds hkey).1
      have hgone := hcleared.files j.destPath (mem_viewsOfAll.mpr ⟨j, hj, hk, rfl⟩) _ hprefix
      rw [hgone, hcontent] at hsame
      cases hsame
    · by_contra hnot
      exact hnothing.rows row ((hevicted.rows row).mpr ⟨hrow, hnot⟩) hkey
    · by_contra hnot
      refine hnothing.installs i (hshrunk.rows i hi fun hd => ?_) hkey
      obtain ⟨j, hj, hk, hdest⟩ := mem_viewsOfAll.mp hd
      exact hnot ⟨j, hj, hk, hdest⟩
  · intro ha
    have hspares := ha.spares os
    rw [show evictCache locate os policy h = (.ok ks, h') from hok] at hspares
    refine ⟨hspares, hblobs, fun row hrow hkey => ?_, fun i hi hkey => ?_⟩
    · obtain ⟨hold, hnot⟩ := (hevicted.rows row).mp hrow
      exact hnot (ha.rows row hold hkey)
    · obtain ⟨j, hj, hk, hdest⟩ := ha.installs i (hshrunk.fewer i hi) hkey
      exact hcleared.rows i hi (mem_viewsOfAll.mpr ⟨j, hj, hk, hdest⟩)

end Machine

end Atlas
