import Atlas.Discarding

/-!
# Reconciling the database with the files

At each start, and with each refresh of the screen, the engine goes through its tables:
cache rows without a blob go, install rows without a destination go, and of the
downloads that nobody runs those that cannot be resumed go with their partials. What is
left of them is what may be resumed.

A download is found by its id, and a digest of the manifest id and the path with `::`
between them is all that the id is. So the row of a live transfer may stand under the name
of another manifest, and then it is no live row (`reconcilePass_reconciled_iff`).
-/

namespace Atlas

open Text

/-! ## The pass -/

/-- What a pass removed, for the message that the user is shown. -/
structure ReconcileReport where
  removedBlobs : ℕ
  removedInstalls : ℕ
  removedDownloads : ℕ
  removedBlake3s : List Text
  deriving DecidableEq, Repr

/-- Nothing was removed, which is where a pass begins. -/
def ReconcileReport.none : ReconcileReport := ⟨0, 0, 0, []⟩

section Pass

variable (live : List Text) (dir : List Text) (stuck : Text → Bool)

/-- Whether a partial of a download is among the files of the directory. -/
def downloadTempExists (downloadId : Text) (d : Disk) : Bool :=
  dir.any fun temp => (d.temps temp).isSome && isTempOf downloadId temp

/-- Remove every partial of a download that can be removed; those that are stuck stay on disk. -/
def removeDownloadTemps (downloadId : Text) (d : Disk) : Disk :=
  { d with temps := fun temp =>
      if isTempOf downloadId temp && !stuck temp then none else d.temps temp }

/-- A manifest is stored under the id. -/
def Disk.hasManifest (manifestId : Text) (d : Disk) : Bool :=
  d.manifests.any fun m => m.manifestId = manifestId

/-- A row that no pass touches: it is complete, or its manifest has a live transfer. -/
def exempt (row : DownloadRow) : Bool :=
  row.state = "complete".toList || live.contains row.manifestId

/-- Downloads a restart can pick up: rows that are not complete, whose manifest exists,
and that left a partial or were interrupted. -/
def resumableDownloads (d : Disk) : List (Text × Text × ℕ × ℕ) :=
  d.downloads.filterMap fun row =>
    if exempt live row then none
    else if (downloadTempExists dir row.downloadId d || row.state = "paused".toList ||
        row.state = "running".toList) && d.hasManifest row.manifestId then
      some (row.manifestId, row.artifactPath, row.bytesDone, row.bytesTotal)
    else none

/-- Drop a cache row whose blob file is gone, and count it in the report by the digest it had. -/
def reconcileCacheRow (s : ReconcileReport × Disk) (row : CacheBlob) : ReconcileReport × Disk :=
  if Cas.hasBlob s.2.cache row.blake3 then s
  else
    ({ s.1 with
        removedBlobs := s.1.removedBlobs + 1
        removedBlake3s := s.1.removedBlake3s ++ [row.blake3] },
      { s.2 with cache := reconcileRow row s.2.cache })

/-- Drop the install rows of a destination that is gone, and count it in the report; the
file itself is not there any more. -/
def reconcileInstallRow (s : ReconcileReport × Disk) (row : InstallRow) :
    ReconcileReport × Disk :=
  if s.2.dests.contains row.destPath then s
  else
    ({ s.1 with removedInstalls := s.1.removedInstalls + 1 },
      { s.2 with installs := s.2.installs.filter fun i => i.destPath ≠ row.destPath })

/-- Whether a row is kept: its manifest exists, and it left a partial or was
interrupted. -/
def keepsDownload (row : DownloadRow) (d : Disk) : Bool :=
  d.hasManifest row.manifestId &&
    (downloadTempExists dir row.downloadId d || row.state = "paused".toList ||
      row.state = "running".toList)

/-- Reap a download that is neither live nor to be resumed; a `running` row without a live
transfer is really paused. -/
def reconcileDownloadRow (s : ReconcileReport × Disk) (row : DownloadRow) :
    ReconcileReport × Disk :=
  if exempt live row then s
  else if keepsDownload dir row s.2 then
    if row.state = "running".toList then
      (s.1, { s.2 with
        downloads := Db.setDownloadState row.downloadId "paused".toList s.2.downloads })
    else s
  else
    let d := removeDownloadTemps stuck row.downloadId s.2
    ({ s.1 with removedDownloads := s.1.removedDownloads + 1 },
      { d with downloads := Db.deleteDownload row.downloadId d.downloads })

/-- Bring the database in line with the files. `live` are the manifests with a live
transfer, `dir` the names in the directory of partials, `stuck` the files that cannot be
removed. -/
def reconcilePass (d : Disk) : ReconcileReport × Disk :=
  let s := d.cache.rows.foldl reconcileCacheRow (.none, d)
  let s := s.2.installs.foldl reconcileInstallRow s
  s.2.downloads.foldl (reconcileDownloadRow live dir stuck) s

end Pass

/-! ## Blobs -/

/-- A row without a blob has nothing to remove among the blobs. -/
theorem reconcileRow_blobs (row : CacheBlob) (c : Cache) : (reconcileRow row c).blobs = c.blobs := by
  unfold reconcileRow Cas.hasBlob Cas.removeBlob
  cases hpath : Cas.blobPath row.blake3 with
  | error e => rfl
  | ok key =>
    dsimp only
    split
    · rfl
    · rename_i hblob
      have hnone : c.blobs key = none := Option.not_isSome_iff_eq_none.mp hblob
      show Function.update c.blobs key none = c.blobs
      rw [← hnone, Function.update_eq_self]

theorem reconcileRow_hasBlob (row : CacheBlob) (c : Cache) (k : Text) :
    Cas.hasBlob (reconcileRow row c) k = Cas.hasBlob c k := by
  unfold Cas.hasBlob
  rw [reconcileRow_blobs]

/-- A row that is left was there, and is no row without a blob. -/
theorem mem_reconcileRow {row r : CacheBlob} {c : Cache} (h : r ∈ (reconcileRow row c).rows) :
    r ∈ c.rows ∧ (Cas.hasBlob c row.blake3 = true ∨ r.blake3 ≠ row.blake3) := by
  unfold reconcileRow at h
  split at h
  · rename_i hblob
    exact ⟨h, Or.inl hblob⟩
  · obtain ⟨hmem, hne⟩ := List.mem_filter.mp h
    refine ⟨?_, Or.inr (of_decide_eq_true hne)⟩
    cases hremove : Cas.removeBlob row.blake3 c with
    | error e =>
      rw [hremove] at hmem
      exact hmem
    | ok c' =>
      rw [hremove] at hmem
      unfold Cas.removeBlob at hremove
      split at hremove
      · cases hremove
      · cases hremove
        exact hmem

/-- All but the cache is as it was. -/
theorem reconcileCacheRow_snd (s : ReconcileReport × Disk) (row : CacheBlob) :
    (reconcileCacheRow s row).2 = { s.2 with cache := reconcileRow row s.2.cache } := by
  unfold reconcileCacheRow
  split
  · rename_i hblob
    unfold reconcileRow
    rw [hblob]
    rfl
  · rfl

/-- **After the cache rows** every row that is left has its blob. -/
theorem foldl_reconcileCacheRow (rows : List CacheBlob) (s : ReconcileReport × Disk) :
    (∃ c, (rows.foldl reconcileCacheRow s).2 = { s.2 with cache := c } ∧
      (∀ k, Cas.hasBlob c k = Cas.hasBlob s.2.cache k) ∧
      ∀ r ∈ c.rows, r ∈ s.2.cache.rows ∧
        ∀ row ∈ rows, Cas.hasBlob s.2.cache row.blake3 = true ∨ r.blake3 ≠ row.blake3) := by
  induction rows generalizing s with
  | nil => exact ⟨s.2.cache, rfl, fun _ => rfl, fun r hr => ⟨hr, List.forall_mem_nil _⟩⟩
  | cons row rows ih =>
    obtain ⟨c, hc, hblobs, hrows⟩ := ih (reconcileCacheRow s row)
    have hstep := reconcileCacheRow_snd s row
    rw [hstep] at hc hblobs hrows
    have hsame : ∀ k, Cas.hasBlob c k = Cas.hasBlob s.2.cache k := fun k =>
      (hblobs k).trans (reconcileRow_hasBlob row s.2.cache k)
    refine ⟨c, hc, hsame, fun r hr => ?_⟩
    obtain ⟨hmem, hall⟩ := hrows r hr
    obtain ⟨hold, hrow⟩ := mem_reconcileRow hmem
    refine ⟨hold, List.forall_mem_cons.mpr ⟨hrow, fun row' hrow' => ?_⟩⟩
    exact (hall row' hrow').imp_left (reconcileRow_hasBlob row s.2.cache row'.blake3).symm.trans

/-- Rows with blobs are left as they are. -/
theorem foldl_reconcileCacheRow_of_hasBlob {rows : List CacheBlob} {s : ReconcileReport × Disk}
    (h : ∀ row ∈ rows, Cas.hasBlob s.2.cache row.blake3 = true) :
    rows.foldl reconcileCacheRow s = s := by
  induction rows with
  | nil => rfl
  | cons row rows ih =>
    obtain ⟨hrow, hrest⟩ := List.forall_mem_cons.mp h
    rw [List.foldl_cons, reconcileCacheRow, if_pos hrow]
    exact ih hrest

/-! ## Installs -/

/-- **After the install rows** every row that is left has its destination. -/
theorem foldl_reconcileInstallRow (rows : List InstallRow) (s : ReconcileReport × Disk) :
    (∃ installs, (rows.foldl reconcileInstallRow s).2 = { s.2 with installs := installs } ∧
      ∀ i ∈ installs, i ∈ s.2.installs ∧
        ∀ row ∈ rows, row.destPath ∈ s.2.dests ∨ i.destPath ≠ row.destPath) := by
  induction rows generalizing s with
  | nil => exact ⟨s.2.installs, rfl, fun i hi => ⟨hi, List.forall_mem_nil _⟩⟩
  | cons row rows ih =>
    obtain ⟨installs, hfold, hinstalls⟩ := ih (reconcileInstallRow s row)
    rw [List.foldl_cons, hfold]
    unfold reconcileInstallRow at hinstalls ⊢
    by_cases hdest : s.2.dests.contains row.destPath = true
    · rw [if_pos hdest] at hinstalls ⊢
      refine ⟨installs, rfl, fun i hi => ?_⟩
      obtain ⟨hmem, hall⟩ := hinstalls i hi
      exact ⟨hmem, List.forall_mem_cons.mpr ⟨Or.inl (List.contains_iff_mem.mp hdest), hall⟩⟩
    · rw [if_neg hdest] at hinstalls ⊢
      refine ⟨installs, rfl, fun i hi => ?_⟩
      obtain ⟨hmem, hall⟩ := hinstalls i hi
      obtain ⟨hold, hne⟩ := List.mem_filter.mp hmem
      exact ⟨hold, List.forall_mem_cons.mpr ⟨Or.inr (of_decide_eq_true hne), hall⟩⟩

theorem foldl_reconcileInstallRow_of_dest {rows : List InstallRow}
    {s : ReconcileReport × Disk} (h : ∀ row ∈ rows, row.destPath ∈ s.2.dests) :
    rows.foldl reconcileInstallRow s = s := by
  induction rows with
  | nil => rfl
  | cons row rows ih =>
    obtain ⟨hrow, hrest⟩ := List.forall_mem_cons.mp h
    rw [List.foldl_cons, reconcileInstallRow, if_pos (List.contains_iff_mem.mpr hrow)]
    exact ih hrest

/-! ## Downloads -/

section Downloads

variable {live : List Text} {dir : List Text} {stuck : Text → Bool} {d : Disk}

variable (live dir) in
/-- What becomes of a row: it is kept, paused if it ran, or it goes. -/
def settle (d : Disk) (row : DownloadRow) : Option DownloadRow :=
  if exempt live row then some row
  else if keepsDownload dir row d then
    some (if row.state = "running".toList then { row with state := "paused".toList } else row)
  else none

variable (live dir stuck) in
/-- A partial goes with a row that the pass takes away, unless the system refuses to remove it. -/
def reaps (d : Disk) (temp : Text) (row : DownloadRow) : Bool :=
  (settle live dir d row).isNone && (isTempOf row.downloadId temp && !stuck temp)

variable (live dir stuck) in
/-- The store when some rows have been gone through and others have not. -/
def settled (d : Disk) (done rows : List DownloadRow) : Disk :=
  { d with
    downloads := done.filterMap (settle live dir d) ++ rows
    temps := fun temp => if done.any (reaps live dir stuck d temp) then none else d.temps temp }

theorem downloadId_settle {row row' : DownloadRow} (h : settle live dir d row = some row') :
    row'.downloadId = row.downloadId ∧ row'.manifestId = row.manifestId := by
  unfold settle at h
  split at h
  · cases h
    exact ⟨rfl, rfl⟩
  · split at h
    · obtain rfl := Option.some.inj h
      split <;> exact ⟨rfl, rfl⟩
    · cases h

/-- The table as the database keeps it: a download id is there once, and is a digest with no
dot in it. -/
structure Tables (d : Disk) : Prop where
  ids : (d.downloads.map DownloadRow.downloadId).Nodup
  plain : ∀ row ∈ d.downloads, '.' ∉ row.downloadId

/-- **A partial belongs to one download.** -/
theorem isTempOf_inj {id id' temp : Text} (hid : '.' ∉ id) (hid' : '.' ∉ id')
    (h : isTempOf id temp = true) (h' : isTempOf id' temp = true) : id = id' :=
  (takeWhile_of_isTempOf hid h).symm.trans (takeWhile_of_isTempOf hid' h')

/-- The partials of a download that has not gone are there. -/
theorem settled_temps {done rows : List DownloadRow} {id temp : Text} (hid : '.' ∉ id)
    (hplain : ∀ row ∈ done, '.' ∉ row.downloadId)
    (hkept : ∀ row ∈ done, row.downloadId = id → settle live dir d row ≠ none)
    (h : isTempOf id temp = true) :
    (settled live dir stuck d done rows).temps temp = d.temps temp := by
  refine if_neg fun hany => ?_
  obtain ⟨row, hrow, hreaps⟩ := List.any_eq_true.mp hany
  obtain ⟨hnone, hrest⟩ := Bool.and_eq_true_iff.mp hreaps
  obtain ⟨htemp, -⟩ := Bool.and_eq_true_iff.mp hrest
  exact hkept row hrow (isTempOf_inj (hplain row hrow) hid htemp h)
    (Option.isNone_iff_eq_none.mp hnone)

theorem keepsDownload_settled {done rows : List DownloadRow} {row : DownloadRow}
    (hid : '.' ∉ row.downloadId) (hplain : ∀ r ∈ done, '.' ∉ r.downloadId)
    (hkept : ∀ r ∈ done, r.downloadId = row.downloadId → settle live dir d r ≠ none) :
    keepsDownload dir row (settled live dir stuck d done rows) = keepsDownload dir row d := by
  have htemps : downloadTempExists dir row.downloadId (settled live dir stuck d done rows) =
      downloadTempExists dir row.downloadId d := by
    unfold downloadTempExists
    refine congrArg (List.any dir) (funext fun temp => ?_)
    by_cases htemp : isTempOf row.downloadId temp = true
    · rw [settled_temps hid hplain hkept htemp]
    · rw [Bool.not_eq_true] at htemp
      rw [htemp, Bool.and_false, Bool.and_false]
  unfold keepsDownload
  rw [htemps]
  rfl

/-- A row among rows of other ids. -/
theorem setDownloadState_of_unique {before after : List DownloadRow} {row : DownloadRow}
    (hbefore : ∀ r ∈ before, r.downloadId ≠ row.downloadId)
    (hafter : ∀ r ∈ after, r.downloadId ≠ row.downloadId) (state : Text) :
    Db.setDownloadState row.downloadId state (before ++ row :: after) =
      before ++ { row with state := state } :: after := by
  have hsame : ∀ l : List DownloadRow, (∀ r ∈ l, r.downloadId ≠ row.downloadId) →
      Db.setDownloadState row.downloadId state l = l := by
    intro l hl
    refine (List.map_congr_left fun r hr => ?_).trans (List.map_id l)
    exact if_neg (hl r hr)
  have hcons : Db.setDownloadState row.downloadId state (before ++ row :: after) =
      Db.setDownloadState row.downloadId state before ++
        (if row.downloadId = row.downloadId then { row with state := state } else row) ::
          Db.setDownloadState row.downloadId state after := by
    unfold Db.setDownloadState
    rw [List.map_append, List.map_cons]
  rw [hcons, hsame before hbefore, hsame after hafter, if_pos rfl]

theorem deleteDownload_of_unique {before after : List DownloadRow} {row : DownloadRow}
    (hbefore : ∀ r ∈ before, r.downloadId ≠ row.downloadId)
    (hafter : ∀ r ∈ after, r.downloadId ≠ row.downloadId) :
    Db.deleteDownload row.downloadId (before ++ row :: after) = before ++ after := by
  unfold Db.deleteDownload
  rw [List.filter_append, List.filter_cons_of_neg (by simp),
    List.filter_eq_self.mpr fun r hr => decide_eq_true (hbefore r hr),
    List.filter_eq_self.mpr fun r hr => decide_eq_true (hafter r hr)]

/-- The report of a row: one more download removed, or none. -/
def ReconcileReport.add (rep : ReconcileReport) (gone : Bool) : ReconcileReport :=
  { rep with removedDownloads := rep.removedDownloads + gone.toNat }

/-- **One row** is settled. -/
theorem reconcileDownloadRow_settled {done rows : List DownloadRow} {row : DownloadRow}
    (hids : ((done ++ row :: rows).map DownloadRow.downloadId).Nodup)
    (hplain : ∀ r ∈ done ++ row :: rows, '.' ∉ r.downloadId) (rep : ReconcileReport) :
    reconcileDownloadRow live dir stuck (rep, settled live dir stuck d done (row :: rows)) row =
      (rep.add (settle live dir d row).isNone,
        settled live dir stuck d (done ++ [row]) rows) := by
  have hplain' : ∀ r ∈ done, '.' ∉ r.downloadId := fun r hr =>
    hplain r (List.mem_append_left _ hr)
  have hid : '.' ∉ row.downloadId := hplain row (List.mem_append_right _ List.mem_cons_self)
  rw [List.map_append, List.map_cons] at hids
  obtain ⟨hdone, hrest, hapart⟩ := List.nodup_append.mp hids
  have hbefore : ∀ r ∈ done, r.downloadId ≠ row.downloadId := fun r hr =>
    hapart _ (List.mem_map_of_mem hr) _ List.mem_cons_self
  have hafter : ∀ r ∈ rows, r.downloadId ≠ row.downloadId := fun r hr heq =>
    (List.nodup_cons.mp hrest).1 (heq ▸ List.mem_map_of_mem hr)
  have hsettled : ∀ r ∈ done.filterMap (settle live dir d), r.downloadId ≠ row.downloadId := by
    intro r hr
    obtain ⟨r', hr', hsettle⟩ := List.mem_filterMap.mp hr
    exact (downloadId_settle hsettle).1 ▸ hbefore r' hr'
  have hkeep : keepsDownload dir row (settled live dir stuck d done (row :: rows)) =
      keepsDownload dir row d :=
    keepsDownload_settled hid hplain' fun r hr heq => absurd heq (hbefore r hr)
  -- what becomes of the partials, if the row stays
  have hstays : ∀ {row'}, settle live dir d row = some row' →
      settled live dir stuck d (done ++ [row]) rows =
        { settled live dir stuck d done (row :: rows) with
          downloads := done.filterMap (settle live dir d) ++ row' :: rows } := by
    intro row' hrow'
    unfold settled
    have hnot : ∀ temp, (done ++ [row]).any (reaps live dir stuck d temp) =
        done.any (reaps live dir stuck d temp) := by
      intro temp
      rw [List.any_append, List.any_cons, List.any_nil, Bool.or_false, reaps, hrow']
      exact Bool.or_false _
    rw [List.filterMap_append, List.filterMap_cons, hrow', List.append_assoc]
    simp only [hnot]
    rfl
  unfold reconcileDownloadRow
  dsimp only
  rw [hkeep]
  by_cases hexempt : exempt live row = true
  · have hrow : settle live dir d row = some row := if_pos hexempt
    rw [if_pos hexempt, hstays hrow, hrow]
    rfl
  · rw [if_neg hexempt]
    by_cases hkept : keepsDownload dir row d = true
    · rw [if_pos hkept]
      by_cases hruns : row.state = "running".toList
      · have hrow : settle live dir d row = some { row with state := "paused".toList } := by
          unfold settle
          rw [if_neg hexempt, if_pos hkept, if_pos hruns]
        rw [if_pos hruns, hstays hrow, hrow]
        show (rep, { settled live dir stuck d done (row :: rows) with
          downloads := Db.setDownloadState row.downloadId "paused".toList
            (done.filterMap (settle live dir d) ++ row :: rows) }) = _
        rw [setDownloadState_of_unique hsettled hafter]
        rfl
      · have hrow : settle live dir d row = some row := by
          unfold settle
          rw [if_neg hexempt, if_pos hkept, if_neg hruns]
        rw [if_neg hruns, hstays hrow, hrow]
        rfl
    · have hrow : settle live dir d row = none := by
        unfold settle
        rw [if_neg hexempt, if_neg hkept]
      have htemps : ∀ temp, (if (done ++ [row]).any (reaps live dir stuck d temp) then none
          else d.temps temp) = if isTempOf row.downloadId temp && !stuck temp then none
          else if done.any (reaps live dir stuck d temp) then none else d.temps temp := by
        intro temp
        rw [List.any_append, List.any_cons, List.any_nil, Bool.or_false, reaps, hrow]
        show (if (done.any _ || (isTempOf row.downloadId temp && !stuck temp)) = true then none
          else d.temps temp) = _
        cases done.any (reaps live dir stuck d temp) <;>
          cases isTempOf row.downloadId temp && !stuck temp <;> rfl
      have hgone : settled live dir stuck d (done ++ [row]) rows =
          { settled live dir stuck d done (row :: rows) with
            temps := fun temp => if isTempOf row.downloadId temp && !stuck temp then none
              else (settled live dir stuck d done (row :: rows)).temps temp
            downloads := done.filterMap (settle live dir d) ++ rows } := by
        unfold settled
        simp only [htemps]
        rw [List.filterMap_append, List.filterMap_cons, hrow, List.filterMap_nil, List.append_nil]
      rw [if_neg hkept, hgone, hrow]
      show (_, { settled live dir stuck d done (row :: rows) with
        temps := fun temp => if isTempOf row.downloadId temp && !stuck temp then none
          else (settled live dir stuck d done (row :: rows)).temps temp
        downloads := Db.deleteDownload row.downloadId
          (done.filterMap (settle live dir d) ++ row :: rows) }) = _
      rw [deleteDownload_of_unique hsettled hafter]
      rfl

/-- **All rows** are settled. -/
theorem foldl_reconcileDownloadRow {done rows : List DownloadRow}
    (hids : ((done ++ rows).map DownloadRow.downloadId).Nodup)
    (hplain : ∀ r ∈ done ++ rows, '.' ∉ r.downloadId) (rep : ReconcileReport) :
    rows.foldl (reconcileDownloadRow live dir stuck) (rep, settled live dir stuck d done rows) =
      (rows.foldl (fun rep row => rep.add (settle live dir d row).isNone) rep,
        settled live dir stuck d (done ++ rows) []) := by
  induction rows generalizing done rep with
  | nil => rw [List.foldl_nil, List.foldl_nil, List.append_nil]
  | cons row rows ih =>
    rw [List.foldl_cons, reconcileDownloadRow_settled hids hplain, ih, List.foldl_cons,
      List.append_assoc, List.singleton_append]
    · rwa [List.append_assoc, List.singleton_append]
    · rwa [List.append_assoc, List.singleton_append]

/-! ## What the pass leaves -/

/-- Some of the ids are left, in their order. -/
theorem sublist_downloadId_settle (rows : List DownloadRow) :
    ((rows.filterMap (settle live dir d)).map DownloadRow.downloadId).Sublist
      (rows.map DownloadRow.downloadId) := by
  induction rows with
  | nil => exact List.Sublist.slnil
  | cons row rows ih =>
    cases hrow : settle live dir d row with
    | none =>
      rw [List.filterMap_cons_none hrow]
      exact ih.cons _
    | some row' =>
      rw [List.filterMap_cons_some hrow, List.map_cons, List.map_cons, (downloadId_settle hrow).1]
      exact ih.cons_cons _

/-- A row that is left is settled. -/
theorem mem_settled_downloads {rows : List DownloadRow} {row : DownloadRow} :
    row ∈ (settled live dir stuck d rows []).downloads ↔
      ∃ r ∈ rows, settle live dir d r = some row := by
  show row ∈ rows.filterMap (settle live dir d) ++ [] ↔ _
  rw [List.append_nil, List.mem_filterMap]

theorem Tables.settled (h : Tables d) : Tables (settled live dir stuck d d.downloads []) := by
  refine ⟨?_, fun row hrow => ?_⟩
  · show ((d.downloads.filterMap (settle live dir d) ++ []).map _).Nodup
    rw [List.append_nil]
    exact (sublist_downloadId_settle d.downloads).nodup h.ids
  · obtain ⟨r, hr, hsettle⟩ := mem_settled_downloads.mp hrow
    rw [(downloadId_settle hsettle).1]
    exact h.plain r hr

/-- Nothing changes if every row is settled. -/
theorem settled_of_forall (h : ∀ row ∈ d.downloads, settle live dir d row = some row) :
    settled live dir stuck d d.downloads [] = d := by
  have hrows : d.downloads.filterMap (settle live dir d) = d.downloads := by
    rw [List.filterMap_congr h, List.filterMap_some]
  have hreaps : ∀ temp, d.downloads.any (reaps live dir stuck d temp) = false := by
    intro temp
    refine List.any_eq_false.mpr fun row hrow => ?_
    unfold reaps
    rw [h row hrow]
    exact Bool.false_ne_true
  unfold settled
  rw [hrows, List.append_nil]
  simp only [hreaps]
  rfl

/-- A row that was paused is kept the next time. -/
theorem settle_settle {row row' : DownloadRow} (h : settle live dir d row = some row') :
    settle live dir d row' = some row' := by
  unfold settle at h
  by_cases hexempt : exempt live row = true
  · rw [if_pos hexempt] at h
    cases h
    exact if_pos hexempt
  · rw [if_neg hexempt] at h
    by_cases hkeep : keepsDownload dir row d = true
    · rw [if_pos hkeep] at h
      by_cases hruns : row.state = "running".toList
      · rw [if_pos hruns] at h
        obtain rfl := Option.some.inj h
        have hmanifest : d.hasManifest row.manifestId = true :=
          (Bool.and_eq_true_iff.mp hkeep).1
        have hkeep' : keepsDownload dir { row with state := "paused".toList } d = true := by
          show (d.hasManifest row.manifestId && _) = true
          rw [hmanifest, Bool.true_and, decide_eq_true rfl, Bool.or_true, Bool.true_or]
        unfold settle
        rw [if_pos hkeep', if_neg (show ¬ "paused".toList = "running".toList by decide)]
        exact ite_self _
      · rw [if_neg hruns] at h
        obtain rfl := Option.some.inj h
        unfold settle
        rw [if_pos hkeep, if_neg hruns]
        exact ite_self _
    · rw [if_neg hkeep] at h
      cases h

/-- A row that is left was not reaped under its id. -/
theorem settle_ne_none_of_mem (h : Tables d) {row : DownloadRow}
    (hrow : row ∈ (settled live dir stuck d d.downloads []).downloads) :
    ∀ r ∈ d.downloads, r.downloadId = row.downloadId → settle live dir d r ≠ none := by
  obtain ⟨r, hr, hsettle⟩ := mem_settled_downloads.mp hrow
  intro r' hr' hid
  have heq : r' = r :=
    List.inj_on_of_nodup_map h.ids hr' hr (hid.trans (downloadId_settle hsettle).1)
  rw [heq, hsettle]
  exact Option.some_ne_none row

/-- What is left is settled once and for all. -/
theorem settle_settled (h : Tables d) {row : DownloadRow}
    (hrow : row ∈ (settled live dir stuck d d.downloads []).downloads) :
    settle live dir (settled live dir stuck d d.downloads []) row = some row := by
  have hkeeps : keepsDownload dir row (settled live dir stuck d d.downloads []) =
      keepsDownload dir row d :=
    keepsDownload_settled (h.settled.plain row hrow) h.plain (settle_ne_none_of_mem h hrow)
  obtain ⟨r, -, hsettle⟩ := mem_settled_downloads.mp hrow
  unfold settle
  rw [hkeeps]
  exact settle_settle hsettle

/-- The row of an id, and there is no other. -/
theorem getDownload_eq_some_iff {rows : List DownloadRow} {row : DownloadRow} {id : Text}
    (hids : (rows.map DownloadRow.downloadId).Nodup) :
    Db.getDownload id rows = some row ↔ row ∈ rows ∧ row.downloadId = id := by
  constructor
  · intro h
    have hid := List.find?_some h
    exact ⟨List.mem_of_find?_eq_some h, of_decide_eq_true hid⟩
  · rintro ⟨hrow, hid⟩
    cases h : Db.getDownload id rows with
    | none => exact absurd (decide_eq_true hid) (List.find?_eq_none.mp h row hrow)
    | some r =>
      have hr := List.find?_some h
      rw [List.inj_on_of_nodup_map hids (List.mem_of_find?_eq_some h) hrow
        ((of_decide_eq_true hr).trans hid.symm)]

/-- **The row of an id is as it was** if and only if it was settled already. -/
theorem getDownload_settled_iff (h : Tables d) {id : Text} :
    Db.getDownload id (settled live dir stuck d d.downloads []).downloads =
        Db.getDownload id d.downloads ↔
      ∀ row ∈ d.downloads, row.downloadId = id → settle live dir d row = some row := by
  have hsettled : ∀ row, Db.getDownload id (settled live dir stuck d d.downloads []).downloads =
      some row ↔ _ := fun row => getDownload_eq_some_iff h.settled.ids
  constructor
  · intro hsame row hrow hid
    rw [(getDownload_eq_some_iff h.ids).mpr ⟨hrow, hid⟩] at hsame
    obtain ⟨r, hr, hsettle⟩ := mem_settled_downloads.mp ((hsettled row).mp hsame).1
    rwa [List.inj_on_of_nodup_map h.ids hr hrow (downloadId_settle hsettle).1.symm] at hsettle
  · intro hall
    refine Option.ext fun row => ?_
    rw [hsettled, getDownload_eq_some_iff h.ids, mem_settled_downloads]
    constructor
    · rintro ⟨⟨r, hr, hsettle⟩, hid⟩
      have hr' := hall r hr ((downloadId_settle hsettle).1.symm.trans hid)
      rw [hr'] at hsettle
      cases hsettle
      exact ⟨hr, hid⟩
    · rintro ⟨hrow, hid⟩
      exact ⟨⟨row, hrow, hall row hrow hid⟩, hid⟩

/-- A row that is settled is exempt, or kept without having run. -/
theorem settle_eq_self_iff {row : DownloadRow} :
    settle live dir d row = some row ↔
      exempt live row = true ∨
        keepsDownload dir row d = true ∧ row.state ≠ "running".toList := by
  unfold settle
  by_cases hexempt : exempt live row = true
  · rw [if_pos hexempt]
    exact iff_of_true rfl (Or.inl hexempt)
  · rw [if_neg hexempt, or_iff_right hexempt]
    by_cases hkeep : keepsDownload dir row d = true
    · rw [if_pos hkeep]
      by_cases hruns : row.state = "running".toList
      · rw [if_pos hruns]
        refine iff_of_false (fun h => ?_) fun h => h.2 hruns
        have hpaused : "paused".toList = row.state :=
          congrArg DownloadRow.state (Option.some.inj h)
        exact absurd (hpaused.trans hruns) (by decide)
      · rw [if_neg hruns]
        exact iff_of_true rfl ⟨hkeep, hruns⟩
    · rw [if_neg hkeep]
      exact iff_of_false (fun h => Option.some_ne_none row h.symm) fun h => hkeep h.1

/-- **What the pass does** to each of the tables, and to the partials. -/
theorem reconcilePass_eq (h : Tables d) :
    ∃ rep c installs, reconcilePass live dir stuck d =
        (rep, { settled live dir stuck d d.downloads [] with
          cache := c
          installs := installs }) ∧
      (∀ row ∈ c.rows, Cas.hasBlob c row.blake3 = true) ∧
      ∀ i ∈ installs, i.destPath ∈ d.dests := by
  obtain ⟨c, hc, hblobs, hrows⟩ := foldl_reconcileCacheRow d.cache.rows (.none, d)
  have hcached : d.cache.rows.foldl reconcileCacheRow (.none, d) =
      ((d.cache.rows.foldl reconcileCacheRow (.none, d)).1, { d with cache := c }) :=
    Prod.ext rfl hc
  generalize (d.cache.rows.foldl reconcileCacheRow (.none, d)).1 = rep at hcached
  obtain ⟨installs, hi, hinstalls⟩ :=
    foldl_reconcileInstallRow d.installs (rep, { d with cache := c })
  have hinstalled : d.installs.foldl reconcileInstallRow (rep, { d with cache := c }) =
      ((d.installs.foldl reconcileInstallRow (rep, { d with cache := c })).1,
        { d with cache := c, installs := installs }) := Prod.ext rfl hi
  generalize (d.installs.foldl reconcileInstallRow (rep, { d with cache := c })).1 = rep'
    at hinstalled
  have hdownloads := @foldl_reconcileDownloadRow live dir stuck
    { d with cache := c, installs := installs } [] d.downloads h.ids h.plain rep'
  refine ⟨d.downloads.foldl (fun rep row => rep.add (settle live dir d row).isNone) rep', c,
    installs, ?_, fun row hrow => ?_, fun i hmem => ?_⟩
  · unfold reconcilePass
    dsimp only
    rw [hcached]
    dsimp only
    rw [hinstalled]
    exact hdownloads
  · obtain ⟨hold, hall⟩ := hrows row hrow
    rw [hblobs]
    exact (hall row hold).resolve_right fun hne => hne rfl
  · obtain ⟨hold, hall⟩ := hinstalls i hmem
    exact (hall i hold).resolve_right fun hne => hne rfl

/-- A store that is in line is left as it is. -/
theorem reconcilePass_of_settled (h : Tables d)
    (hrows : ∀ row ∈ d.cache.rows, Cas.hasBlob d.cache row.blake3 = true)
    (hinstalls : ∀ i ∈ d.installs, i.destPath ∈ d.dests)
    (hdownloads : ∀ row ∈ d.downloads, settle live dir d row = some row) :
    reconcilePass live dir stuck d = (.none, d) := by
  have hreport : ∀ rows : List DownloadRow, (∀ row ∈ rows, settle live dir d row = some row) →
      rows.foldl (fun rep row => rep.add (settle live dir d row).isNone) .none =
        ReconcileReport.none := by
    intro rows hall
    induction rows with
    | nil => rfl
    | cons row rows ih =>
      obtain ⟨hrow, hrest⟩ := List.forall_mem_cons.mp hall
      rw [List.foldl_cons, hrow]
      exact ih hrest
  have hfold := @foldl_reconcileDownloadRow live dir stuck d [] d.downloads h.ids h.plain .none
  unfold reconcilePass
  dsimp only
  rw [foldl_reconcileCacheRow_of_hasBlob hrows]
  dsimp only
  rw [foldl_reconcileInstallRow_of_dest hinstalls]
  refine hfold.trans ?_
  rw [hreport d.downloads hdownloads]
  exact congrArg (Prod.mk _) (settled_of_forall hdownloads)

/-- In a store that is in line all rows but those that are exempt can be resumed. -/
theorem resumableDownloads_of_settled
    (h : ∀ row ∈ d.downloads, settle live dir d row = some row) :
    resumableDownloads live dir d =
      (d.downloads.filter fun row => !exempt live row).map fun row =>
        (row.manifestId, row.artifactPath, row.bytesDone, row.bytesTotal) := by
  unfold resumableDownloads
  rw [← List.filterMap_eq_map, List.filterMap_filter]
  refine List.filterMap_congr fun row hrow => ?_
  obtain hexempt | ⟨hkeep, -⟩ := settle_eq_self_iff.mp (h row hrow)
  · rw [hexempt]
    rfl
  · by_cases hexempt : exempt live row = true
    · rw [hexempt]
      rfl
    · rw [if_neg hexempt, Bool.eq_false_iff.mpr hexempt]
      unfold keepsDownload at hkeep
      rw [Bool.and_comm] at hkeep
      exact if_pos hkeep

end Downloads

/-! ## Live transfers -/

section Live

variable (D : Digests) (live : List Manifest) (dir : List Text) (stuck : Text → Bool)

/-- The ids under which the live transfers are registered, where a manifest stands for the
transfer that is under way for it. -/
def liveIds : List Text := live.map Manifest.manifestId

/-- What is asked of a pass that finds one store and leaves another. -/
structure Reconciled (d d' : Disk) : Prop where
  blobs : ∀ row ∈ d'.cache.rows, Cas.hasBlob d'.cache row.blake3 = true
  installs : ∀ i ∈ d'.installs, i.destPath ∈ d'.dests
  /-- The rows that are left, and that no live transfer has, are those that can be
  resumed. -/
  resumable : resumableDownloads (liveIds live) dir d' =
    (d'.downloads.filter fun row => !exempt (liveIds live) row).map fun row =>
      (row.manifestId, row.artifactPath, row.bytesDone, row.bytesTotal)
  /-- The partials of a row that is left are as they were. -/
  referred : ∀ row ∈ d'.downloads, ∀ temp, isTempOf row.downloadId temp →
    d'.temps temp = d.temps temp
  /-- The rows of a live transfer are as they were: those under its name, -/
  named : ∀ row ∈ d.downloads, row.manifestId ∈ liveIds live → row ∈ d'.downloads
  /-- and those that it reads and writes. -/
  rows : ∀ m ∈ live, ∀ a ∈ m.artifacts,
    Db.getDownload (artifactDownloadId D m.manifestId a.path) d'.downloads =
      Db.getDownload (artifactDownloadId D m.manifestId a.path) d.downloads
  temps : ∀ m ∈ live, ∀ a ∈ m.artifacts, ∀ temp,
    isTempOf (artifactDownloadId D m.manifestId a.path) temp → d'.temps temp = d.temps temp
  /-- The next pass changes nothing. -/
  again : reconcilePass (liveIds live) dir stuck d' = (.none, d')

variable {D live dir stuck}

/-- **A pass keeps all that a store should keep if and only if no live transfer works
under the row of another.** A row that has the download id of an artifact that is being
transferred must be complete, or stand under a manifest that is being transferred, or be
one that is kept and does not say that it runs. -/
theorem reconcilePass_reconciled_iff {d : Disk} (h : Tables d) :
    Reconciled D live dir stuck d (reconcilePass (liveIds live) dir stuck d).2 ↔
      ∀ m ∈ live, ∀ a ∈ m.artifacts, ∀ row ∈ d.downloads,
        row.downloadId = artifactDownloadId D m.manifestId a.path →
          (row.state = "complete".toList ∨ row.manifestId ∈ liveIds live) ∨
            keepsDownload dir row d = true ∧ row.state ≠ "running".toList := by
  have hexempt : ∀ row : DownloadRow, exempt (liveIds live) row = true ↔
      row.state = "complete".toList ∨ row.manifestId ∈ liveIds live := by
    intro row
    unfold exempt
    rw [Bool.or_eq_true_iff, decide_eq_true_iff, List.contains_iff_mem]
  obtain ⟨rep, c, installs, hpass, hblobs, hinstalls⟩ :=
    @reconcilePass_eq (liveIds live) dir stuck d h
  rw [hpass]
  constructor
  -- the rows of a live manifest must come out as they went in, and `settle` leaves a row alone
  -- exactly when it is exempt, or kept and not running
  · intro hrec m hm a ha row hrow hid
    rw [← hexempt, ← settle_eq_self_iff]
    have hsame := hrec.rows m hm a ha
    exact (@getDownload_settled_iff (liveIds live) dir stuck d h _).mp hsame row hrow hid
  · intro hlive
    have hsettle : ∀ m ∈ live, ∀ a ∈ m.artifacts, ∀ row ∈ d.downloads,
        row.downloadId = artifactDownloadId D m.manifestId a.path →
          settle (liveIds live) dir d row = some row := by
      intro m hm a ha row hrow hid
      rw [settle_eq_self_iff, hexempt]
      exact hlive m hm a ha row hrow hid
    have hagain := fun row => @settle_settled (liveIds live) dir stuck d h row
    -- a partial that a surviving row refers to is never among the swept ones
    have hreferred : ∀ row ∈ (settled (liveIds live) dir stuck d d.downloads []).downloads,
        ∀ temp, isTempOf row.downloadId temp →
          (settled (liveIds live) dir stuck d d.downloads []).temps temp = d.temps temp :=
      fun row hrow temp htemp => settled_temps (h.settled.plain row hrow) h.plain
        (settle_ne_none_of_mem h hrow) htemp
    refine ⟨hblobs, hinstalls, resumableDownloads_of_settled hagain, hreferred, ?_, ?_, ?_, ?_⟩
    · intro row hrow hmem
      show row ∈ (settled (liveIds live) dir stuck d d.downloads []).downloads
      exact mem_settled_downloads.mpr
        ⟨row, hrow, settle_eq_self_iff.mpr (Or.inl ((hexempt row).mpr (Or.inr hmem)))⟩
    · intro m hm a ha
      exact (@getDownload_settled_iff (liveIds live) dir stuck d h _).mpr (hsettle m hm a ha)
    · intro m hm a ha temp htemp
      have hkept : ∀ row ∈ d.downloads,
          row.downloadId = artifactDownloadId D m.manifestId a.path →
            settle (liveIds live) dir d row ≠ none := by
        intro row hrow hid
        rw [hsettle m hm a ha row hrow hid]
        exact Option.some_ne_none row
      show (settled (liveIds live) dir stuck d d.downloads []).temps temp = _
      exact settled_temps (dot_notMem_artifactDownloadId D _ _) h.plain hkept htemp
    -- a second pass finds nothing to settle, so it changes nothing
    · have htables := @Tables.settled (liveIds live) dir stuck d h
      exact reconcilePass_of_settled ⟨htables.ids, htables.plain⟩ hblobs hinstalls hagain

end Live

/-! ## One digest for two downloads -/

/-- **A download id does not tell where the manifest id ends.** -/
theorem artifactDownloadId_assoc (D : Digests) (manifestId middle path : Text) :
    artifactDownloadId D (manifestId ++ "::".toList ++ middle) path =
      artifactDownloadId D manifestId (middle ++ "::".toList ++ path) := by
  unfold artifactDownloadId
  simp only [List.append_assoc]

/-- A manifest of one file, whose id and path together name its download. -/
def shardManifest (manifestId path : Text) : Manifest where
  schemaVersion := SCHEMA_VERSION
  manifestId := manifestId
  publisherId := "local".toList
  access := ⟨false, false, []⟩
  artifacts := [⟨path, 4096, ⟨List.replicate 64 'a', [], []⟩, none,
    [.iroh (List.replicate 64 'a') ["ticket".toList] .none]⟩]

/-- Two transfers that run, each under its own row, and the row of one that was cut off. -/
def ownRowsDisk : Disk :=
  { Disk.empty with
    manifests := [shardManifest "base".toList "q4::shard".toList,
      shardManifest "other".toList "shard".toList, shardManifest "gone".toList "shard".toList]
    downloads :=
      Db.upsertDownload (artifactDownloadId ⟨id, id, id⟩ "gone".toList "shard".toList)
        "gone".toList "shard".toList "running".toList 4096
        (Db.upsertDownload (artifactDownloadId ⟨id, id, id⟩ "other".toList "shard".toList)
          "other".toList "shard".toList "running".toList 4096
          (Db.upsertDownload (artifactDownloadId ⟨id, id, id⟩ "base".toList "q4::shard".toList)
            "base".toList "q4::shard".toList "running".toList 4096 [])) }

/-- The manifests that are being transferred, two of them, with ids and paths that run together. -/
def ownRowsLive : List Manifest :=
  [shardManifest "base".toList "q4::shard".toList, shardManifest "other".toList "shard".toList]

/-- The rows of the two are left running, and the third is paused. -/
theorem ownRows_reconciled :
    Tables ownRowsDisk ∧
      Reconciled ⟨id, id, id⟩ ownRowsLive [] (fun _ => false) ownRowsDisk
        (reconcilePass (liveIds ownRowsLive) [] (fun _ => false) ownRowsDisk).2 ∧
      (reconcilePass (liveIds ownRowsLive) [] (fun _ => false) ownRowsDisk).2.downloads.map
        DownloadRow.state = ["running".toList, "running".toList, "paused".toList] := by
  have htables : Tables ownRowsDisk := ⟨by decide +kernel, by decide +kernel⟩
  have hrows : ∀ m ∈ ownRowsLive, ∀ a ∈ m.artifacts, ∀ row ∈ ownRowsDisk.downloads,
      row.downloadId = artifactDownloadId ⟨id, id, id⟩ m.manifestId a.path →
        row.manifestId ∈ liveIds ownRowsLive := by
    decide +kernel
  refine ⟨htables, (reconcilePass_reconciled_iff htables).mpr ?_, by decide +kernel⟩
  exact fun m hm a ha row hrow hid => Or.inl (Or.inr (hrows m hm a ha row hrow hid))

/-- Another manifest's transfer of the same download id was paused before. -/
def sharedRowDisk : Disk :=
  { Disk.empty with
    manifests := [shardManifest "base::q4".toList "shard".toList,
      shardManifest "base".toList "q4::shard".toList]
    downloads :=
      Db.upsertDownload (artifactDownloadId ⟨id, id, id⟩ "base".toList "q4::shard".toList)
        "base".toList "q4::shard".toList "running".toList 4096
        (Db.upsertDownload (artifactDownloadId ⟨id, id, id⟩ "base::q4".toList "shard".toList)
          "base::q4".toList "shard".toList "paused".toList 4096 []) }

/-- Now the row of the transfer is paused while it runs. -/
theorem sharedRow_paused :
    ¬ ∀ (D : Digests) (live : List Manifest) (dir : List Text) (stuck : Text → Bool) (d : Disk),
      Tables d → Reconciled D live dir stuck d (reconcilePass (liveIds live) dir stuck d).2 := by
  intro h
  have hrec := h ⟨id, id, id⟩ [shardManifest "base".toList "q4::shard".toList] []
    (fun _ => false) sharedRowDisk ⟨by decide +kernel, by decide +kernel⟩
  have hrow := hrec.rows _ List.mem_cons_self _ List.mem_cons_self
  exact absurd hrow (by decide +kernel)

end Atlas
