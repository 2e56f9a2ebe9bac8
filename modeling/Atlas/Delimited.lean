import Mathlib.Data.List.Basic

/-!
# Fields joined by a separator

A record written as fields with a separator between them can be read back when
no field contains the separator. When a field may contain it, two records with
the same text need not have the same fields; they do as soon as the fields in
question contain it equally often, which is what is proved here.

`Delimited.split` cuts a text at every separator. It is undone by joining, and undoes
joining for fields without the separator.
-/

namespace Delimited

variable {α : Type} {sep : α}

/-- Fields, each with the separator before it, so that every field is preceded by exactly
one separator. -/
def block (sep : α) (fields : List (List α)) : List α := fields.flatMap (sep :: ·)

@[simp] theorem block_nil : block sep [] = [] := rfl

theorem block_cons (field : List α) (fields : List (List α)) :
    block sep (field :: fields) = sep :: (field ++ block sep fields) := rfl

variable [DecidableEq α]

/-- **A field and what follows the separator** are determined by the text, given
how often the field contains the separator. -/
theorem append_cons_inj {a b a' b' : List α} (hcount : a.count sep = a'.count sep)
    (h : a ++ sep :: b = a' ++ sep :: b') : a = a' ∧ b = b' := by
  induction a generalizing a' with
  | nil =>
    cases a' with
    | nil =>
      rw [List.nil_append, List.nil_append] at h
      exact ⟨rfl, (List.cons.inj h).2⟩
    | cons c a' =>
      -- the other field starts with a separator, which this one has none of
      rw [List.nil_append, List.cons_append] at h
      rw [← (List.cons.inj h).1, List.count_cons_self, List.count_nil] at hcount
      exact absurd hcount (Nat.succ_ne_zero _).symm
  | cons c a ih =>
    cases a' with
    | nil =>
      rw [List.nil_append, List.cons_append] at h
      rw [(List.cons.inj h).1, List.count_cons_self, List.count_nil] at hcount
      exact absurd hcount (Nat.succ_ne_zero _)
    | cons c' a' =>
      rw [List.cons_append, List.cons_append] at h
      obtain ⟨hc, htail⟩ := List.cons.inj h
      subst hc
      rw [List.count_cons, List.count_cons] at hcount
      obtain ⟨ha, hb⟩ := ih (Nat.add_right_cancel hcount) htail
      exact ⟨congrArg _ ha, hb⟩

/-- A block of fields without the separator contains it once for each. -/
theorem count_block {fields : List (List α)} (hfields : ∀ f ∈ fields, sep ∉ f) :
    (block sep fields).count sep = fields.length := by
  induction fields with
  | nil => rfl
  | cons f fields ih =>
    rw [block_cons, List.count_cons_self, List.count_append,
      List.count_eq_zero_of_not_mem (hfields f List.mem_cons_self), Nat.zero_add,
      ih fun g hg => hfields g (List.mem_cons_of_mem f hg), List.length_cons]

/-- **A field and the fields after it** are determined by the text, given how
often the first contains the separator and that the others do not. -/
theorem append_block_inj {fields fields' : List (List α)}
    (hfields : ∀ f ∈ fields, sep ∉ f) (hfields' : ∀ f ∈ fields', sep ∉ f) {a a' : List α}
    (hcount : a.count sep = a'.count sep)
    (h : a ++ block sep fields = a' ++ block sep fields') :
    a = a' ∧ fields = fields' := by
  have hlen : fields.length = fields'.length := by
    have hall := congrArg (List.count sep) h
    rw [List.count_append, List.count_append, count_block hfields, count_block hfields',
      hcount] at hall
    exact Nat.add_left_cancel hall
  induction fields generalizing a a' fields' with
  | nil =>
    cases fields' with
    | nil =>
      rw [block_nil, List.append_nil, List.append_nil] at h
      exact ⟨h, rfl⟩
    | cons f' fields' => exact absurd hlen (Nat.succ_ne_zero _).symm
  | cons f fields ih =>
    cases fields' with
    | nil => exact absurd hlen (Nat.succ_ne_zero _)
    | cons f' fields' =>
      rw [block_cons, block_cons] at h
      obtain ⟨ha, htail⟩ := append_cons_inj hcount h
      have hzero := List.count_eq_zero_of_not_mem (hfields f List.mem_cons_self)
      have hzero' := List.count_eq_zero_of_not_mem (hfields' f' List.mem_cons_self)
      obtain ⟨hf, hrest⟩ := ih (fun g hg => hfields g (List.mem_cons_of_mem f hg))
        (fun g hg => hfields' g (List.mem_cons_of_mem f' hg)) (hzero.trans hzero'.symm) htail
        (Nat.succ.inj hlen)
      exact ⟨ha, by rw [hf, hrest]⟩

/-! ## Splitting -/

/-- The fields of a text: what is before, between and after the separators. -/
def split (sep : α) : List α → List (List α)
  | [] => [[]]
  | c :: s =>
    if c = sep then [] :: split sep s
    else match split sep s with
      | [] => [[c]]
      | field :: fields => (c :: field) :: fields

theorem split_ne_nil (s : List α) : split sep s ≠ [] := by
  cases s with
  | nil => exact List.cons_ne_nil [] []
  | cons c s =>
    rw [split]
    split
    · exact List.cons_ne_nil _ _
    · split
      · exact List.cons_ne_nil _ _
      · exact List.cons_ne_nil _ _

theorem split_cons_self (s : List α) : split sep (sep :: s) = [] :: split sep s := by
  rw [split, if_pos rfl]

/-- A character that is no separator goes before the first field. -/
theorem split_cons_of_ne {c : α} (hc : c ≠ sep) {s field : List α} {fields : List (List α)}
    (hs : split sep s = field :: fields) : split sep (c :: s) = (c :: field) :: fields := by
  rw [split, if_neg hc, hs]

/-- No field contains the separator. -/
theorem notMem_of_mem_split {s field : List α} (h : field ∈ split sep s) : sep ∉ field := by
  induction s generalizing field with
  | nil =>
    rw [split, List.mem_singleton] at h
    rw [h]
    exact List.not_mem_nil
  | cons c s ih =>
    by_cases hc : c = sep
    · rw [hc, split_cons_self, List.mem_cons] at h
      obtain rfl | h := h
      · exact List.not_mem_nil
      · exact ih h
    · obtain ⟨first, fields, hs⟩ := List.exists_cons_of_ne_nil (show split sep s ≠ [] from split_ne_nil s)
      rw [split_cons_of_ne hc hs, List.mem_cons] at h
      rw [hs] at ih
      obtain rfl | h := h
      · rw [List.mem_cons, not_or]
        exact ⟨fun heq => hc heq.symm, ih List.mem_cons_self⟩
      · exact ih (List.mem_cons_of_mem first h)

/-- A field before a separator is the first one. -/
theorem split_append {field : List α} (hfield : sep ∉ field) (s : List α) :
    split sep (field ++ sep :: s) = field :: split sep s := by
  induction field with
  | nil => exact split_cons_self s
  | cons c field ih =>
    rw [List.mem_cons, not_or] at hfield
    exact split_cons_of_ne (fun h => hfield.1 h.symm) (ih hfield.2)

/-- A text without the separator is one field. -/
theorem split_eq_singleton {field : List α} (hfield : sep ∉ field) :
    split sep field = [field] := by
  induction field with
  | nil => rfl
  | cons c field ih =>
    rw [List.mem_cons, not_or] at hfield
    exact split_cons_of_ne (fun h => hfield.1 h.symm) (ih hfield.2)

/-- **Splitting undoes joining**, for fields without the separator. -/
theorem split_intercalate {fields : List (List α)} (hne : fields ≠ [])
    (hfields : ∀ f ∈ fields, sep ∉ f) :
    split sep (List.intercalate [sep] fields) = fields := by
  induction fields with
  | nil => exact absurd rfl hne
  | cons f fields ih =>
    have hf := hfields f List.mem_cons_self
    by_cases hrest : fields = []
    · rw [hrest, List.intercalate_singleton]
      exact split_eq_singleton hf
    · rw [List.intercalate_cons_of_ne_nil hrest, List.append_assoc]
      show split sep (f ++ sep :: List.intercalate [sep] fields) = _
      rw [split_append hf, ih hrest fun g hg => hfields g (List.mem_cons_of_mem f hg)]

/-- **Splitting at a separator** splits what is before it and what is after it. -/
theorem split_append_cons (s t : List α) :
    split sep (s ++ sep :: t) = split sep s ++ split sep t := by
  induction s with
  | nil => exact split_cons_self t
  | cons c s ih =>
    obtain ⟨first, fields, hs⟩ := List.exists_cons_of_ne_nil (show split sep s ≠ [] from split_ne_nil s)
    rw [hs] at ih
    by_cases hc : c = sep
    · rw [hc, List.cons_append, split_cons_self, split_cons_self, ih, hs]
      rfl
    · rw [List.cons_append, split_cons_of_ne hc hs, split_cons_of_ne hc ih]
      rfl

/-- Texts that are joined are split one after the other. -/
theorem split_intercalate_flatMap {texts : List (List α)} (hne : texts ≠ []) :
    split sep (List.intercalate [sep] texts) = texts.flatMap (split sep) := by
  induction texts with
  | nil => exact absurd rfl hne
  | cons t texts ih =>
    rw [List.flatMap_cons]
    by_cases hrest : texts = []
    · rw [hrest, List.intercalate_singleton]
      exact (List.append_nil _).symm
    · rw [List.intercalate_cons_of_ne_nil hrest, List.append_assoc]
      show split sep (t ++ sep :: List.intercalate [sep] texts) = _
      rw [split_append_cons, ih hrest]

/-- What is put before a text without separators is put before its first field. -/
theorem split_append_of_notMem {t : List α} (ht : sep ∉ t) {s field : List α}
    {fields : List (List α)} (hs : split sep s = field :: fields) :
    split sep (t ++ s) = (t ++ field) :: fields := by
  induction t with
  | nil => exact hs
  | cons c t ih =>
    rw [List.mem_cons, not_or] at ht
    exact split_cons_of_ne (fun h => ht.1 h.symm) (ih ht.2)

/-- **Joining undoes splitting.** -/
theorem intercalate_split (s : List α) : List.intercalate [sep] (split sep s) = s := by
  induction s with
  | nil => rfl
  | cons c s ih =>
    obtain ⟨first, fields, hs⟩ := List.exists_cons_of_ne_nil (show split sep s ≠ [] from split_ne_nil s)
    by_cases hc : c = sep
    · rw [hc, split_cons_self, List.intercalate_cons_of_ne_nil (split_ne_nil s), ih]
      rfl
    · rw [split_cons_of_ne hc hs, List.intercalate_cons_cons_left, ← hs, ih]

end Delimited
