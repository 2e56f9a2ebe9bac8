import Mathlib.Data.List.AList
import Mathlib.Data.List.Induction

/-!
# Tables by key

A hash map is an association list with distinct keys; the list is the order it
happens to be iterated in. Looking up, inserting and erasing are Mathlib's. What
is added here is what goes over a whole table: `AList.filterMapVal` changes every
value and drops the entries it has no value for, `AList.adjust` changes the value
of one key if it is there, `AList.upsert` gives a key its first value too. All are
known by what they do to a lookup.
-/

namespace AList

variable {α β γ : Type} [DecidableEq α]

/-- Change every value, and drop the entries that get none; the order of the entries that
stay is kept, and so the keys stay distinct. -/
def filterMapVal (f : α → β → Option γ) (m : AList fun _ : α => β) : AList fun _ : α => γ where
  entries := m.entries.filterMap fun e => (f e.1 e.2).map (Sigma.mk e.1)
  nodupKeys := by
    have hnodup := m.nodupKeys
    generalize m.entries = l at hnodup ⊢
    induction l with
    | nil => exact List.nodupKeys_nil
    | cons e l ih =>
      obtain ⟨hnot, hl⟩ := List.nodupKeys_cons.mp hnodup
      rw [List.filterMap_cons]
      cases f e.1 e.2 with
      | none => exact ih hl
      | some c =>
        refine List.nodupKeys_cons.mpr ⟨fun hmem => hnot ?_, ih hl⟩
        obtain ⟨c', hc'⟩ := List.exists_of_mem_keys hmem
        obtain ⟨e', he', hsome⟩ := List.mem_filterMap.mp hc'
        obtain ⟨b, -, hb⟩ := Option.map_eq_some_iff.mp hsome
        have hkey : e'.1 = e.1 := (Sigma.mk.inj hb).1
        exact hkey ▸ List.mem_keys_of_mem he'

/-- What is in a table is what a lookup finds. -/
theorem mem_entries_iff {m : AList fun _ : α => β} {k : α} {b : β} :
    (⟨k, b⟩ : (_ : α) × β) ∈ m.entries ↔ m.lookup k = some b :=
  AList.mem_lookup_iff.symm

/-- **A lookup after a change** is the changed lookup. -/
theorem lookup_filterMapVal (f : α → β → Option γ) (m : AList fun _ : α => β) (k : α) :
    (m.filterMapVal f).lookup k = (m.lookup k).bind (f k) := by
  ext c
  rw [← Option.mem_def, AList.mem_lookup_iff]
  constructor
  · intro hmem
    obtain ⟨⟨k', b⟩, he, hsome⟩ := List.mem_filterMap.mp hmem
    obtain ⟨c', hc', heq⟩ := Option.map_eq_some_iff.mp hsome
    cases heq
    rw [mem_entries_iff.mp he]
    exact hc'
  · intro hbind
    obtain ⟨b, hb, hc⟩ := Option.bind_eq_some_iff.mp hbind
    refine List.mem_filterMap.mpr ⟨⟨k, b⟩, mem_entries_iff.mpr hb, ?_⟩
    show (f k b).map _ = _
    rw [hc]
    rfl

/-- Change the value of one key, if it is there; a table without the key is left as it is,
and no other key is touched. -/
def adjust (k : α) (f : β → β) (m : AList fun _ : α => β) : AList fun _ : α => β :=
  m.filterMapVal fun k' b => some (if k' = k then f b else b)

theorem lookup_adjust (k : α) (f : β → β) (m : AList fun _ : α => β) (k' : α) :
    (m.adjust k f).lookup k' = (m.lookup k').map (if k' = k then f else id) := by
  unfold adjust
  rw [lookup_filterMapVal]
  cases m.lookup k' with
  | none => rfl
  | some b =>
    by_cases h : k' = k
    · show some (if k' = k then f b else b) = some ((if k' = k then f else id) b)
      rw [if_pos h, if_pos h]
    · show some (if k' = k then f b else b) = some ((if k' = k then f else id) b)
      rw [if_neg h, if_neg h]
      rfl

/-! ## Grouping -/

/-- Change the value of one key, or give it its first; `f` is given the value there was, if
there was one. -/
def upsert (k : α) (f : Option β → β) (m : AList fun _ : α => β) : AList fun _ : α => β :=
  m.insert k (f (m.lookup k))

theorem lookup_upsert (k : α) (f : Option β → β) (m : AList fun _ : α => β) (k' : α) :
    (m.upsert k f).lookup k' = if k' = k then some (f (m.lookup k)) else m.lookup k' := by
  unfold upsert
  by_cases h : k' = k
  · rw [if_pos h, h, AList.lookup_insert]
  · rw [if_neg h, AList.lookup_insert_ne h]

/-- **Items collected by a key**: the value of a key is what the items with that key
are merged into, in their order. -/
theorem lookup_foldl_upsert {ι : Type} (key : ι → α) (merge : ι → Option β → β) (items : List ι)
    (m : AList fun _ : α => β) (k : α) :
    (items.foldl (fun m x => m.upsert (key x) (merge x)) m).lookup k =
      (items.filter fun x => key x = k).foldl (fun v x => some (merge x v)) (m.lookup k) := by
  induction items generalizing m with
  | nil => rfl
  | cons x items ih =>
    rw [List.foldl_cons, ih, lookup_upsert]
    by_cases h : key x = k
    · rw [if_pos h.symm, List.filter_cons_of_pos (by simpa using h), List.foldl_cons, h]
    · rw [if_neg (Ne.symm h), List.filter_cons_of_neg (by simpa using h)]

/-- Merged items: nothing of none, and otherwise what merging one after the other keeps. -/
theorem foldl_merge_spec {ι : Type} {merge : ι → Option β → β} {P : List ι → β → Prop}
    (hnew : ∀ x, P [x] (merge x none)) (hmerge : ∀ xs x b, P xs b → P (xs ++ [x]) (merge x (some b)))
    {items : List ι} {b : β} (h : items.foldl (fun v x => some (merge x v)) none = some b) :
    P items b := by
  induction items using List.reverseRecOn generalizing b with
  | nil => cases h
  | append_singleton xs x ih =>
    rw [List.foldl_append, List.foldl_cons, List.foldl_nil] at h
    cases hxs : xs.foldl (fun v x => some (merge x v)) none with
    | none =>
      rw [hxs] at h
      cases h
      have hnil : xs = [] := by
        cases xs using List.reverseRecOn with
        | nil => rfl
        | append_singleton ys y =>
          rw [List.foldl_append] at hxs
          cases hxs
      rw [hnil]
      exact hnew x
    | some c =>
      rw [hxs] at h
      cases h
      exact hmerge xs x c (ih hxs)

/-- Some items have a value. -/
theorem foldl_merge_isSome {ι : Type} (merge : ι → Option β → β) {items : List ι}
    (h : items ≠ []) : ∃ b, items.foldl (fun v x => some (merge x v)) none = some b := by
  cases items using List.reverseRecOn with
  | nil => exact absurd rfl h
  | append_singleton xs x =>
    rw [List.foldl_append]
    exact ⟨_, rfl⟩

/-! ## Counting -/

/-- How many values of a table have a property, over its entries, each of which has a
different key. -/
def countVal (p : β → Bool) (m : AList fun _ : α => β) : ℕ := m.entries.countP fun e => p e.2

/-- A table is what one key has and the rest. -/
theorem entries_perm {m : AList fun _ : α => β} {k : α} {b : β} (h : m.lookup k = some b) :
    m.entries.Perm (⟨k, b⟩ :: (m.erase k).entries) := by
  have hmem := List.mem_keys_of_mem (mem_entries_iff.mpr h)
  obtain ⟨b', l₁, l₂, -, hentries, herase⟩ := List.exists_of_kerase hmem
  have hb : m.lookup k = some b' := mem_entries_iff.mp (by rw [hentries]; simp)
  obtain rfl := Option.some.inj (hb.symm.trans h)
  show m.entries.Perm (_ :: m.entries.kerase k)
  rw [herase, hentries]
  exact List.perm_middle

theorem countVal_of_lookup (p : β → Bool) {m : AList fun _ : α => β} {k : α} {b : β}
    (h : m.lookup k = some b) :
    m.countVal p = (m.erase k).countVal p + if p b then 1 else 0 := by
  unfold countVal
  rw [(entries_perm h).countP_eq, List.countP_cons]

theorem countVal_insert (p : β → Bool) (m : AList fun _ : α => β) (k : α) (b : β) :
    (m.insert k b).countVal p = (m.erase k).countVal p + if p b then 1 else 0 := by
  unfold countVal
  rw [AList.entries_insert, List.countP_cons]
  rfl

theorem erase_of_lookup_none {m : AList fun _ : α => β} {k : α} (h : m.lookup k = none) :
    m.erase k = m :=
  AList.ext (List.kerase_of_notMem_keys (AList.lookup_eq_none.mp h))

end AList
