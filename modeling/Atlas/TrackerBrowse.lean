import Atlas.Tracker
import Mathlib.Data.List.Dedup

/-!
# What an anonymous catalog row shows

Someone who asks for the catalog without a group and without a node id sees the
blobs that have a listable live provider. The name, size, quantization, license
and SHA-256 of a row are a listable provider's; the device names and the magnet are
collected from all of them.

`Tracker.browse_noninterferent_iff` compares two trackers with the same listable
providers: the answers to a query show the same rows, up to order and peer counts,
exactly if the providers that are not listable add no device name and no first
magnet to a blob that the query finds. `Tracker.private_device_shown` is a tracker
where they do.
-/

namespace Atlas

open Text

/-- What a catalog row says beside its peer counts, which is what must not tell anything of
those who are not listed. -/
def CatalogRow.described (r : CatalogRow) : CatalogRow := { r with peers := 0, btSeeders := 0 }

namespace Tracker

variable {lowercase : Text → Text}

/-! ## The rows of an answer -/

/-- The rows of an answer before they are sorted and cut, so that a theorem about rows need
not speak of their order. -/
def rows (lowercase : Text → Text) (now : ℤ) (q : Text) (group selfId : Option Text)
    (t : Tracker) : List CatalogRow :=
  (t.prune now).2.providers.entries.filterMap fun e =>
    catalogRow lowercase (lowercase q) group (selfId.filter fun s => s ≠ [])
      (t.prune now).1 e.1 e.2

theorem browse_eq (now : ℤ) (q : Text) (group selfId : Option Text) (limit : ℕ) (t : Tracker) :
    (t.browse lowercase now q group selfId limit).1 =
      ((t.rows lowercase now q group selfId).insertionSort rowLe).take limit := rfl

/-- A row is that of its blob. -/
theorem catalogRow_blake3 {q : Text} {group selfId : Option Text}
    {peersByB3 : AList fun _ : Text => ℕ} {b : Text} {provs : List Provider} {r : CatalogRow}
    (h : catalogRow lowercase q group selfId peersByB3 b provs = some r) : r.blake3 = b := by
  unfold catalogRow at h
  dsimp only at h
  split at h
  · cases h
  · split at h
    · cases h
    · split at h
      · cases h
      · exact Option.some.inj h ▸ rfl

/-- **No blob has two rows.** -/
theorem rows_pairwise (now : ℤ) (q : Text) (group selfId : Option Text) (t : Tracker) :
    (t.rows lowercase now q group selfId).Pairwise fun r r' => r.blake3 ≠ r'.blake3 := by
  have hkeys : (t.prune now).2.providers.entries.Pairwise fun e e' => e.1 ≠ e'.1 :=
    List.nodupKeys_iff_pairwise.mp (t.prune now).2.providers.nodupKeys
  refine List.Pairwise.filterMap _ ?_ hkeys
  intro e e' hne r hr r' hr'
  rw [catalogRow_blake3 hr, catalogRow_blake3 hr']
  exact hne

/-- An entry of the pruned table has the live providers of its blob. -/
theorem eq_live_of_mem_prune {now : ℤ} {t : Tracker} {b : Text} {v : List Provider}
    (h : (⟨b, v⟩ : (_ : Text) × List Provider) ∈ (t.prune now).2.providers.entries) :
    v = t.live now b := by
  rw [← held_prune]
  unfold held
  rw [AList.mem_entries_iff.mp h]
  rfl

/-- **A row of an answer** is made of the live providers of its blob. -/
theorem catalogRow_of_mem_rows {now : ℤ} {q : Text} {group selfId : Option Text} {t : Tracker}
    {r : CatalogRow} (h : r ∈ t.rows lowercase now q group selfId) :
    catalogRow lowercase (lowercase q) group (selfId.filter fun s => s ≠ []) (t.prune now).1
      r.blake3 (t.live now r.blake3) = some r := by
  obtain ⟨⟨b, v⟩, he, hr⟩ := List.mem_filterMap.mp h
  rw [catalogRow_blake3 hr, ← eq_live_of_mem_prune he]
  exact hr

/-- The row of a blob for someone without a group and without a node id. -/
def anonymousRow (lowercase : Text → Text) (now : ℤ) (q : Text) (t : Tracker) (b : Text) :
    Option CatalogRow :=
  catalogRow lowercase (lowercase q) none none (t.prune now).1 b (t.live now b)

/-- **The rows are those of the blobs**, one each. -/
theorem mem_rows {now : ℤ} {q : Text} {t : Tracker} {r : CatalogRow} :
    r ∈ t.rows lowercase now q none none ↔ t.anonymousRow lowercase now q r.blake3 = some r := by
  refine ⟨catalogRow_of_mem_rows, fun hr => ?_⟩
  cases hlookup : (t.prune now).2.providers.lookup r.blake3 with
  | none =>
    have hlive : t.live now r.blake3 = [] := by
      rw [← held_prune]
      unfold held
      rw [hlookup]
      rfl
    unfold anonymousRow at hr
    rw [hlive] at hr
    cases hr
  | some v =>
    have he := AList.mem_entries_iff.mpr hlookup
    exact List.mem_filterMap.mpr ⟨⟨r.blake3, v⟩, he, eq_live_of_mem_prune he ▸ hr⟩

/-! ## One row -/

/-- The listable ones of a list of providers, which browsing shows. -/
def listed (v : List Provider) : List Provider := v.filter Provider.listable

/-- Whether a query finds a blob: some live provider of it is listable, and the
name its newest listable provider gave it contains what is asked for. -/
def Finds (lowercase : Text → Text) (q : Text) (v : List Provider) : Prop :=
  ∃ rep ∈ newest (listed v), lowercase q = [] ∨ lowercase q <:+: lowercase rep.name

theorem any_listable (v : List Provider) : v.any Provider.listable = true ↔ listed v ≠ [] := by
  rw [List.any_eq_true, Ne, listed, List.filter_eq_nil_iff]
  push Not
  rfl

/-- A fold that never gives up what it has. -/
theorem foldl_eq_some {f : Option Provider → Provider → Option Provider}
    (hf : ∀ q p, ∃ r, f (some q) p = some r) (v : List Provider) (q : Provider) :
    ∃ r, v.foldl f (some q) = some r := by
  induction v generalizing q with
  | nil => exact ⟨q, rfl⟩
  | cons x v ih =>
    obtain ⟨r, hr⟩ := hf q x
    rw [List.foldl_cons, hr]
    exact ih r

/-- What a fold has in the end it had before, or it is of the list, if each turn keeps what
there is or takes the next. -/
theorem mem_of_foldl_eq_some {f : Option Provider → Provider → Option Provider}
    (hf : ∀ best x q, f best x = some q → best = some q ∨ q = x) {v : List Provider}
    {best : Option Provider} {p : Provider} (h : v.foldl f best = some p) :
    best = some p ∨ p ∈ v := by
  induction v generalizing best with
  | nil => exact Or.inl h
  | cons x v ih =>
    rw [List.foldl_cons] at h
    obtain hbest | htail := ih h
    · obtain hbest | rfl := hf _ _ _ hbest
      · exact Or.inl hbest
      · exact Or.inr List.mem_cons_self
    · exact Or.inr (List.mem_cons_of_mem _ htail)

/-- Providers that are some have a newest. -/
theorem newest_eq_none {v : List Provider} : newest v = none ↔ v = [] := by
  cases v with
  | nil => exact ⟨fun _ => rfl, fun _ => rfl⟩
  | cons p v =>
    have hsome : ∃ q, newest (p :: v) = some q := by
      refine foldl_eq_some (fun q x => ?_) v p
      dsimp only
      split
      · exact ⟨x, rfl⟩
      · exact ⟨q, rfl⟩
    obtain ⟨q, hq⟩ := hsome
    refine ⟨fun h => ?_, fun h => by cases h⟩
    rw [hq] at h
    cases h

/-- The newest of some providers is one of them. -/
theorem mem_of_newest {v : List Provider} {p : Provider} (h : newest v = some p) : p ∈ v := by
  refine (mem_of_foldl_eq_some (fun best x q hq => ?_) h).resolve_left fun hnone => by cases hnone
  cases best with
  | none => exact Or.inr (Option.some.inj hq).symm
  | some r =>
    dsimp only at hq
    split at hq
    · exact Or.inr (Option.some.inj hq).symm
    · exact Or.inl hq

/-- A listed blob is represented by a listable provider. -/
theorem representative_eq {v : List Provider} (h : listed v ≠ []) :
    representative v = newest (listed v) := by
  have hpublic : v.any Provider.listable = true := (any_listable v).mpr h
  unfold representative
  dsimp only
  rw [hpublic]
  show (newest (listed v)).or _ = _
  cases hnewest : newest (listed v) with
  | none => exact absurd (newest_eq_none.mp hnewest) h
  | some p => rfl

/-- The magnet of a row: the first there is, or none. -/
theorem firstMagnet_getD {v : List Provider} {rep : Provider} (h : rep ∈ v) :
    (firstMagnet v).getD rep.magnet = (firstMagnet v).getD [] := by
  cases hmagnet : firstMagnet v with
  | some m => rfl
  | none =>
    unfold firstMagnet at hmagnet
    have hrep := List.find?_eq_none.mp hmagnet rep.magnet (List.mem_map_of_mem h)
    simpa using hrep

/-- **What an anonymous row shows**: the fields of the newest listable provider,
and the devices and the first magnet of all. -/
theorem anonymousRow_described (now : ℤ) (q : Text) (t : Tracker) (b : Text) :
    (t.anonymousRow lowercase now q b).map CatalogRow.described =
      ((newest (listed (t.live now b))).filter fun rep =>
        lowercase q = [] ∨ lowercase q <:+: lowercase rep.name).map fun rep =>
          { blake3 := b, sha256 := rep.sha256, name := rep.name, size := rep.size
            quant := rep.quant, license := rep.license
            magnet := (firstMagnet (t.live now b)).getD []
            peers := 0, btSeeders := 0, devices := deviceNames (t.live now b), mine := false } := by
  generalize hv : t.live now b = v
  unfold anonymousRow catalogRow
  rw [hv]
  by_cases hlisted : listed v = []
  · have hany : v.any Provider.listable = false :=
      Bool.eq_false_iff.mpr fun h => (any_listable v).mp h hlisted
    rw [hlisted, hany]
    rfl
  · rw [representative_eq hlisted, (any_listable v).mpr hlisted]
    cases hnewest : newest (listed v) with
    | none => exact absurd (newest_eq_none.mp hnewest) hlisted
    | some rep =>
      have hrep : rep ∈ v := List.mem_of_mem_filter (mem_of_newest hnewest)
      rw [← firstMagnet_getD hrep]
      by_cases hq : lowercase q = [] ∨ lowercase q <:+: lowercase rep.name
      · have hnot : ¬ (lowercase q ≠ [] ∧ ¬ lowercase q <:+: lowercase rep.name) := by
          rintro ⟨hne, hno⟩
          exact hq.elim hne hno
        have hfilter : (some rep).filter (fun rep => decide (lowercase q = [] ∨
            lowercase q <:+: lowercase rep.name)) = some rep :=
          Option.filter_some_pos (decide_eq_true hq)
        rw [hfilter]
        show Option.map _ (if lowercase q ≠ [] ∧ ¬ lowercase q <:+: lowercase rep.name then _
          else _) = _
        rw [if_neg hnot]
        rfl
      · have hnot : lowercase q ≠ [] ∧ ¬ lowercase q <:+: lowercase rep.name := not_or.mp hq
        have hfilter : (some rep).filter (fun rep => decide (lowercase q = [] ∨
            lowercase q <:+: lowercase rep.name)) = none :=
          Option.filter_some_neg (decide_eq_false hq)
        rw [hfilter]
        show Option.map _ (if lowercase q ≠ [] ∧ ¬ lowercase q <:+: lowercase rep.name then _
          else _) = _
        rw [if_pos hnot]
        rfl

/-! ## Device names and magnets -/

/-- Two lists of providers show the same devices if they have the same ones. -/
theorem deviceNames_eq_iff {v v' : List Provider} :
    deviceNames v = deviceNames v' ↔
      ∀ d ≠ [], (∃ p ∈ v, p.device = d) ↔ ∃ p ∈ v', p.device = d := by
  have hmem : ∀ (v : List Provider) (d : Text),
      d ∈ ((v.map Provider.device).filter fun d => d ≠ []) ↔ d ≠ [] ∧ ∃ p ∈ v, p.device = d := by
    intro v d
    rw [List.mem_filter, List.mem_map, decide_eq_true_iff, and_comm]
  have hsorted : ∀ v : List Provider, (deviceNames v).Pairwise (· ≤ ·) := fun v =>
    List.pairwise_insertionSort _ _
  constructor
  · intro heq d hd
    have hboth : d ∈ deviceNames v ↔ d ∈ deviceNames v' := by rw [heq]
    unfold deviceNames at hboth
    rw [(List.perm_insertionSort _ _).mem_iff, (List.perm_insertionSort _ _).mem_iff,
      List.mem_dedup, List.mem_dedup, hmem, hmem] at hboth
    simpa only [hd, ne_eq, not_false_eq_true, true_and] using hboth
  · intro hsame
    refine List.Perm.eq_of_pairwise (fun a b _ _ => le_antisymm) (hsorted v) (hsorted v') ?_
    refine (List.perm_insertionSort _ _).trans (List.Perm.trans ?_
      (List.perm_insertionSort _ _).symm)
    refine (List.perm_ext_iff_of_nodup (List.nodup_dedup _) (List.nodup_dedup _)).mpr ?_
    intro d
    rw [List.mem_dedup, List.mem_dedup, hmem, hmem]
    exact and_congr_right fun hd => hsame d hd

/-- The magnet of a row in terms of its providers. -/
theorem firstMagnet_eq (v : List Provider) :
    firstMagnet v = (v.find? fun p => p.magnet ≠ []).map Provider.magnet :=
  List.find?_map

/-- A first magnet is not empty. -/
theorem ne_nil_of_firstMagnet {v : List Provider} {m : Text} (h : firstMagnet v = some m) :
    m ≠ [] := by
  unfold firstMagnet at h
  have hm := List.find?_some h
  exact of_decide_eq_true hm

/-- Rows show the same magnet if the first one is the same. -/
theorem firstMagnet_getD_inj {v v' : List Provider} :
    (firstMagnet v).getD [] = (firstMagnet v').getD [] ↔ firstMagnet v = firstMagnet v' := by
  refine ⟨fun h => ?_, fun h => congrArg (Option.getD · []) h⟩
  cases hv : firstMagnet v with
  | none =>
    cases hv' : firstMagnet v' with
    | none => rfl
    | some m =>
      rw [hv, hv'] at h
      exact absurd h.symm (ne_nil_of_firstMagnet hv')
  | some m =>
    cases hv' : firstMagnet v' with
    | none =>
      rw [hv, hv'] at h
      exact absurd h (ne_nil_of_firstMagnet hv)
    | some m' =>
      rw [hv, hv'] at h
      exact congrArg some h

/-! ## The condition -/

/-- The trackers have the same listable live providers, record for record, so that nothing a
visitor may see tells one tracker from the other. -/
def SameListed (now : ℤ) (t t' : Tracker) : Prop :=
  ∀ b, listed (t.live now b) = listed (t'.live now b)

/-- Every device name of an unlisted provider is one of the other providers' too. -/
def DevicesAmong (v v' : List Provider) : Prop :=
  ∀ p ∈ v, p.listable = false → p.device ≠ [] → ∃ p' ∈ v', p'.device = p.device

/-- **Unlisted providers show nothing**: they bring no device name that the others
do not have, and the first provider with a magnet has the same one. -/
def UnlistedAgree (v v' : List Provider) : Prop :=
  DevicesAmong v v' ∧ DevicesAmong v' v ∧
    (v.find? fun p => p.magnet ≠ []).map Provider.magnet =
      (v'.find? fun p => p.magnet ≠ []).map Provider.magnet

instance (v v' : List Provider) : Decidable (DevicesAmong v v') :=
  inferInstanceAs (Decidable (∀ p ∈ v, p.listable = false → p.device ≠ [] →
    ∃ p' ∈ v', p'.device = p.device))

instance (v v' : List Provider) : Decidable (UnlistedAgree v v') :=
  inferInstanceAs (Decidable (_ ∧ _))

/-- Among lists with the same listable providers only the unlisted ones matter. -/
theorem devicesAmong_iff {v v' : List Provider} (h : listed v = listed v') :
    DevicesAmong v v' ↔ ∀ d ≠ [], (∃ p ∈ v, p.device = d) → ∃ p ∈ v', p.device = d := by
  constructor
  · rintro hamong d hd ⟨p, hp, rfl⟩
    cases hlistable : p.listable with
    | false => exact hamong p hp hlistable hd
    | true =>
      have hmem : p ∈ listed v' := h ▸ List.mem_filter.mpr ⟨hp, hlistable⟩
      exact ⟨p, List.mem_of_mem_filter hmem, rfl⟩
  · intro hall p hp _ hd
    exact hall p.device hd ⟨p, hp, rfl⟩

/-- **The unlisted providers agree** exactly if devices and magnet are the same. -/
theorem unlistedAgree_iff {v v' : List Provider} (h : listed v = listed v') :
    UnlistedAgree v v' ↔ deviceNames v = deviceNames v' ∧ firstMagnet v = firstMagnet v' := by
  unfold UnlistedAgree
  rw [devicesAmong_iff h, devicesAmong_iff h.symm, deviceNames_eq_iff, firstMagnet_eq,
    firstMagnet_eq, ← and_assoc]
  refine and_congr_left fun _ => ⟨fun hboth d hd => ⟨hboth.1 d hd, hboth.2 d hd⟩, fun hiff => ?_⟩
  exact ⟨fun d hd => (hiff d hd).mp, fun d hd => (hiff d hd).mpr⟩

/-! ## Comparing answers -/

/-- **One blob's row is the same** exactly if the query does not find it or its
unlisted providers agree. -/
theorem anonymousRow_described_eq_iff {now : ℤ} {t t' : Tracker} (h : SameListed now t t')
    (q : Text) (b : Text) :
    (t.anonymousRow lowercase now q b).map CatalogRow.described =
        (t'.anonymousRow lowercase now q b).map CatalogRow.described ↔
      (Finds lowercase q (t.live now b) → UnlistedAgree (t.live now b) (t'.live now b)) := by
  rw [anonymousRow_described, anonymousRow_described, ← h b, unlistedAgree_iff (h b)]
  unfold Finds
  cases hnewest : newest (listed (t.live now b)) with
  | none =>
    refine ⟨fun _ hfinds => ?_, fun _ => rfl⟩
    obtain ⟨rep, hrep, -⟩ := hfinds
    cases hrep
  | some rep =>
    by_cases hq : lowercase q = [] ∨ lowercase q <:+: lowercase rep.name
    · have hfilter : (some rep).filter (fun rep => decide (lowercase q = [] ∨
          lowercase q <:+: lowercase rep.name)) = some rep :=
        Option.filter_some_pos (decide_eq_true hq)
      rw [hfilter, Option.map_some, Option.map_some, Option.some_inj, CatalogRow.mk.injEq,
        firstMagnet_getD_inj]
      constructor
      · rintro ⟨-, -, -, -, -, -, hmagnet, -, -, hdevices, -⟩ -
        exact ⟨hdevices, hmagnet⟩
      · intro hagree
        obtain ⟨hdevices, hmagnet⟩ := hagree ⟨rep, rfl, hq⟩
        exact ⟨rfl, rfl, rfl, rfl, rfl, rfl, hmagnet, rfl, rfl, hdevices, rfl⟩
    · have hfilter : (some rep).filter (fun rep => decide (lowercase q = [] ∨
          lowercase q <:+: lowercase rep.name)) = none :=
        Option.filter_some_neg (decide_eq_false hq)
      rw [hfilter]
      refine ⟨fun _ hfinds => ?_, fun _ => rfl⟩
      obtain ⟨rep', hrep', hq'⟩ := hfinds
      cases hrep'
      exact absurd hq' hq

/-- Rows without their counts are still one for each blob. -/
theorem rows_described_nodup (now : ℤ) (q : Text) (t : Tracker) :
    ((t.rows lowercase now q none none).map CatalogRow.described).Nodup := by
  have hpairwise : (t.rows lowercase now q none none).Pairwise fun r r' =>
      r.described ≠ r'.described :=
    (rows_pairwise now q none none t).imp fun {r r'} hne heq =>
      hne (show r.described.blake3 = r'.described.blake3 by rw [heq])
  exact List.pairwise_map.mpr hpairwise

/-- What is among the rows without their counts. -/
theorem mem_rows_described {now : ℤ} {q : Text} {t : Tracker} {r : CatalogRow} :
    r ∈ (t.rows lowercase now q none none).map CatalogRow.described ↔
      (t.anonymousRow lowercase now q r.blake3).map CatalogRow.described = some r := by
  rw [List.mem_map, Option.map_eq_some_iff]
  constructor
  · rintro ⟨r, hr, rfl⟩
    exact ⟨r, mem_rows.mp hr, rfl⟩
  · rintro ⟨r', hr', rfl⟩
    have hblake3 : r'.blake3 = r'.described.blake3 := rfl
    exact ⟨r', mem_rows.mpr (hblake3 ▸ hr'), rfl⟩

/-- The rows are the same up to order and counts exactly if those of every blob are. -/
theorem rows_described_perm_iff {now : ℤ} {q : Text} {t t' : Tracker} :
    ((t.rows lowercase now q none none).map CatalogRow.described).Perm
        ((t'.rows lowercase now q none none).map CatalogRow.described) ↔
      ∀ b, (t.anonymousRow lowercase now q b).map CatalogRow.described =
        (t'.anonymousRow lowercase now q b).map CatalogRow.described := by
  rw [List.perm_ext_iff_of_nodup (rows_described_nodup now q t) (rows_described_nodup now q t')]
  constructor
  · intro hmem b
    ext r
    have hblob : ∀ t : Tracker, (t.anonymousRow lowercase now q b).map CatalogRow.described =
        some r → r.blake3 = b := by
      intro t hr
      obtain ⟨r', hr', rfl⟩ := Option.map_eq_some_iff.mp hr
      show r'.blake3 = b
      exact catalogRow_blake3 hr'
    constructor
    · intro hr
      obtain rfl := hblob t hr
      exact mem_rows_described.mp ((hmem r).mp (mem_rows_described.mpr hr))
    · intro hr
      obtain rfl := hblob t' hr
      exact mem_rows_described.mp ((hmem r).mpr (mem_rows_described.mpr hr))
  · intro hrows r
    rw [mem_rows_described, mem_rows_described, hrows]

/-- The same blobs have a row when the listable providers are the same. -/
theorem rows_length_eq {now : ℤ} {q : Text} {t t' : Tracker} (h : SameListed now t t') :
    (t.rows lowercase now q none none).length = (t'.rows lowercase now q none none).length := by
  have hnodup : ∀ t : Tracker, ((t.rows lowercase now q none none).map CatalogRow.blake3).Nodup :=
    fun t => List.pairwise_map.mpr (rows_pairwise now q none none t)
  have hmem : ∀ (t : Tracker) (b : Text),
      b ∈ (t.rows lowercase now q none none).map CatalogRow.blake3 ↔
        Finds lowercase q (t.live now b) := by
    intro t b
    have hsome : (t.anonymousRow lowercase now q b).isSome ↔ Finds lowercase q (t.live now b) := by
      have hrow := congrArg Option.isSome (@anonymousRow_described lowercase now q t b)
      rw [Option.isSome_map, Option.isSome_map] at hrow
      rw [hrow, Option.isSome_filter, Option.any_eq_true]
      simp only [Finds, decide_eq_true_eq, Option.mem_def]
    rw [← hsome, List.mem_map, Option.isSome_iff_exists]
    constructor
    · rintro ⟨r, hr, rfl⟩
      exact ⟨r, mem_rows.mp hr⟩
    · rintro ⟨r, hr⟩
      obtain rfl := catalogRow_blake3 hr
      exact ⟨r, mem_rows.mpr hr, rfl⟩
  have hperm : ((t.rows lowercase now q none none).map CatalogRow.blake3).Perm
      ((t'.rows lowercase now q none none).map CatalogRow.blake3) := by
    refine (List.perm_ext_iff_of_nodup (hnodup t) (hnodup t')).mpr fun b => ?_
    rw [hmem, hmem]
    unfold Finds
    rw [h b]
  simpa only [List.length_map] using hperm.length_eq

/-- A long enough answer has all the rows. -/
theorem browse_described_perm {now : ℤ} {q : Text} {t : Tracker} {limit : ℕ}
    (h : (t.rows lowercase now q none none).length ≤ limit) :
    ((t.browse lowercase now q none none limit).1.map CatalogRow.described).Perm
      ((t.rows lowercase now q none none).map CatalogRow.described) := by
  rw [browse_eq, List.take_of_length_le ((List.length_insertionSort _ _).trans_le h)]
  exact (List.perm_insertionSort _ _).map _

/-- **What unlisted providers change in an anonymous answer.** Take two trackers
with the same listable live providers, and a query with a limit that cuts nothing
off. The answers have the same rows, up to order and peer counts, exactly if the
unlisted providers of every blob the query finds agree. -/
theorem browse_noninterferent_iff {now : ℤ} {t t' : Tracker} (h : SameListed now t t')
    (q : Text) {limit : ℕ} (hlimit : (t.rows lowercase now q none none).length ≤ limit) :
    ((t.browse lowercase now q none none limit).1.map CatalogRow.described).Perm
        ((t'.browse lowercase now q none none limit).1.map CatalogRow.described) ↔
      ∀ b, Finds lowercase q (t.live now b) →
        UnlistedAgree (t.live now b) (t'.live now b) := by
  have hlimit' : (t'.rows lowercase now q none none).length ≤ limit := rows_length_eq h ▸ hlimit
  calc ((t.browse lowercase now q none none limit).1.map CatalogRow.described).Perm
        ((t'.browse lowercase now q none none limit).1.map CatalogRow.described)
      ↔ ((t.rows lowercase now q none none).map CatalogRow.described).Perm
          ((t'.rows lowercase now q none none).map CatalogRow.described) :=
        ⟨fun hp => (browse_described_perm hlimit).symm.trans
            (hp.trans (browse_described_perm hlimit')),
          fun hp => (browse_described_perm hlimit).trans
            (hp.trans (browse_described_perm hlimit').symm)⟩
    _ ↔ _ := rows_described_perm_iff.trans
        (forall_congr' fun b => anonymousRow_described_eq_iff h q b)

/-! ## A private device -/

/-- A peer announces a blob, listed publicly or not. -/
def announced (node device magnet : Text) (listable : Bool) (t : Tracker) : Tracker :=
  t.announce toAsciiLowercase 0 node node (some device) none
    [⟨List.replicate 64 'd', none, "Model".toList, 3, [], [], magnet, listable⟩]

/-- Someone shares a blob publicly, with a device name and a magnet. -/
def publicShare : Tracker := empty.announced "B".toList "Mac B".toList "magnet:?xt=b".toList true

/-- A peer whose first announce of a blob is unlisted changes no listable provider. -/
theorem sameListed_announced {node device magnet : Text} {t : Tracker}
    (h : ∀ p ∈ t.live 0 (List.replicate 64 'd'), p.nodeId ≠ node) :
    SameListed 0 t (t.announced node device magnet false) := by
  intro b
  show _ = listed ((announceItem _ _ _ _ _ _ _ _).live 0 b)
  rw [live_announceItem]
  have hlower : toAsciiLowercase (List.replicate 64 'd') = List.replicate 64 'd' := by decide
  by_cases hb : b = List.replicate 64 'd'
  · rw [if_pos (hb.trans hlower.symm), hb, List.filter_eq_self.mpr fun p hp =>
      decide_eq_true (h p hp)]
    unfold listed
    rw [List.filter_append]
    exact (List.append_nil _).symm
  · rw [if_neg fun h => hb (h.trans hlower)]

/-- **A private device is shown to everyone.** The same blob, shared publicly by one
device: when another shares it unlisted, the catalog names that device too. -/
theorem private_device_shown :
    let t' := publicShare.announced "A".toList "Mac A".toList [] false
    SameListed 0 publicShare t' ∧
      (publicShare.rows toAsciiLowercase 0 [] none none).length ≤ 100 ∧
      (t'.rows toAsciiLowercase 0 [] none none).length ≤ 100 ∧
      ¬ ((publicShare.browse toAsciiLowercase 0 [] none none 100).1.map
          CatalogRow.described).Perm
        ((t'.browse toAsciiLowercase 0 [] none none 100).1.map CatalogRow.described) := by
  refine ⟨sameListed_announced ?_, ?_, ?_, ?_⟩
  · decide +kernel
  · decide +kernel
  · decide +kernel
  · decide +kernel

/-- An unlisted share without a device name and a magnet is not shown. -/
theorem private_share_hidden :
    ((publicShare.browse toAsciiLowercase 0 [] none none 100).1.map CatalogRow.described).Perm
      (((publicShare.announced "A".toList [] [] false).browse toAsciiLowercase 0 [] none none
        100).1.map CatalogRow.described) := by
  refine (browse_noninterferent_iff (sameListed_announced ?_) [] ?_).mpr fun b _ => ?_
  · decide +kernel
  · decide +kernel
  · by_cases hb : b = List.replicate 64 'd'
    · rw [hb]
      decide +kernel
    · have hlive : ∀ node device magnet listable, ∀ t : Tracker,
          (t.announced node device magnet listable).live 0 b = t.live 0 b := by
        intro node device magnet listable t
        have hlower : toAsciiLowercase (List.replicate 64 'd') = List.replicate 64 'd' := by
          decide
        show (announceItem _ _ _ _ _ _ _ _).live 0 b = _
        rw [live_announceItem, if_neg fun h => hb (h.trans hlower)]
      unfold publicShare
      rw [hlive, hlive, hlive]
      exact (by decide : UnlistedAgree [] [])

end Tracker

end Atlas
