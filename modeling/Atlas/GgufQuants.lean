import Atlas.Grouping
import Atlas.HubBundles
import Atlas.Ranking
import Atlas.TextCut

/-!
# The quants of a repository

A repository offers a model in several quants, and a large quant as several files,
`<base>-NNNNN-of-MMMMM.gguf`. `ggufQuants` groups the GGUF files of a repository: the
shards of one split together, in order, and every other file alone.

What a name declares is said by `DeclaresShard`. What the grouping looks at is the base of
a shard it recognises, and otherwise the whole name. The two are the same exactly for the
lists of files in which no two recognised shards have one base and different totals, a
split of several files has no shard that is not recognised, and no other file has the
base of a recognised shard as its name (`ggufQuants_partition_iff`).
-/

namespace Atlas

open Text

/-! ## Names of shards -/

/-- Some decimal digits, at least one and nothing else. -/
def Digits (s : Text) : Prop := s ≠ [] ∧ s.all isAsciiDigit = true

instance (s : Text) : Decidable (Digits s) := inferInstanceAs (Decidable (_ ∧ _))

/-- The number some decimal digits are, however many they are; the code's own type is bounded. -/
def decimalOf (s : Text) : ℕ := s.foldl (fun n c => 10 * n + (c.toNat - '0'.toNat)) 0

/-- A split: the base name its shards have in common, and how many they are. -/
structure Split where
  base : Text
  total : ℕ
  deriving DecidableEq, Repr

/-- A name is `<base>-NNNNN-of-MMMMM.gguf`, with the extension in any letter case: it
declares that the file is a shard of a split and has an index in it. -/
def DeclaresShard (name : Text) (s : Split) (index : ℕ) : Prop :=
  ∃ idx total ext, name = s.base ++ ("-".toList ++ (idx ++ ("-of-".toList ++ (total ++ ext)))) ∧
    Digits idx ∧ Digits total ∧ toAsciiLowercase ext = ".gguf".toList ∧
    decimalOf idx = index ∧ decimalOf total = s.total

section Split

theorem append_of_rsplitOnce {pat s a b : Text} (h : rsplitOnce pat s = some (a, b)) :
    s = a ++ (pat ++ b) := by
  obtain ⟨parts, hparts, heq⟩ := Option.map_eq_some_iff.mp h
  cases heq
  have hrev := congrArg List.reverse (append_of_splitOnce hparts)
  rw [List.reverse_reverse, List.reverse_append, List.reverse_append,
    List.reverse_reverse, List.append_assoc] at hrev
  exact hrev

/-- A split at the last occurrence of a pattern, when the last character of the pattern
does not come again. -/
theorem rsplitOnce_append {p : Char} {pat rest : Text} (hrest : p ∉ rest) (a : Text) :
    rsplitOnce (pat ++ [p]) (a ++ (pat ++ [p] ++ rest)) = some (a, rest) := by
  unfold rsplitOnce
  have hrev : (a ++ (pat ++ [p] ++ rest)).reverse =
      rest.reverse ++ (p :: pat.reverse ++ a.reverse) := by
    simp
  rw [hrev, show (pat ++ [p]).reverse = p :: pat.reverse by simp,
    splitOnce_append (fun h => hrest (List.mem_reverse.mp h))]
  simp

end Split

theorem Digits.no_dash {s : Text} (h : Digits s) : '-' ∉ s := fun hmem =>
  absurd (List.all_eq_true.mp h.2 '-' hmem) (by decide)

/-- What is left of a name that ends in five characters. -/
theorem take_stem {stem ext : Text} (hext : ext.length = 5) :
    (stem ++ ext).take ((stem ++ ext).length - 5) = stem := by
  rw [List.length_append, hext, Nat.add_sub_cancel, List.take_left]

theorem length_of_gguf {ext : Text} (h : toAsciiLowercase ext = ".gguf".toList) :
    ext.length = 5 := by
  have hlength := congrArg List.length h
  rwa [toAsciiLowercase, List.length_map] at hlength

/-- **What a name declares** is found by splitting it from its end. -/
theorem DeclaresShard.splits {name : Text} {s : Split} {index : ℕ}
    (h : DeclaresShard name s index) :
    ∃ idx total, Digits idx ∧ Digits total ∧
      rsplitOnce "-of-".toList (name.take (name.length - 5)) =
        some (s.base ++ ("-".toList ++ idx), total) ∧
      rsplitOnce "-".toList (s.base ++ ("-".toList ++ idx)) = some (s.base, idx) ∧
      decimalOf idx = index ∧ decimalOf total = s.total := by
  obtain ⟨idx, total, ext, rfl, hidx, htotal, hext, hindex, hcount⟩ := h
  refine ⟨idx, total, hidx, htotal, ?_, ?_, hindex, hcount⟩
  · have hname : s.base ++ ("-".toList ++ (idx ++ ("-of-".toList ++ (total ++ ext)))) =
        (s.base ++ ("-".toList ++ idx) ++ ("-of".toList ++ ['-'] ++ total)) ++ ext := by
      simp
    rw [hname, take_stem (length_of_gguf hext)]
    exact @rsplitOnce_append _ "-of".toList _ htotal.no_dash _
  · exact @rsplitOnce_append _ [] _ hidx.no_dash s.base

/-- **A name declares one shard of one split.** -/
theorem DeclaresShard.unique {name : Text} {s t : Split} {i j : ℕ}
    (h : DeclaresShard name s i) (h' : DeclaresShard name t j) : s = t ∧ i = j := by
  obtain ⟨idx, total, -, -, hleft, hbase, rfl, hcount⟩ := h.splits
  obtain ⟨idx', total', -, -, hleft', hbase', rfl, hcount'⟩ := h'.splits
  obtain ⟨hsame, rfl⟩ := Prod.mk.inj (Option.some.inj (hleft.symm.trans hleft'))
  rw [hsame] at hbase
  obtain ⟨hb, rfl⟩ := Prod.mk.inj (Option.some.inj (hbase.symm.trans hbase'))
  refine ⟨?_, rfl⟩
  cases s
  cases t
  cases hb
  cases hcount
  cases hcount'
  rfl

/-- The base of a split is shorter than the names of its shards. -/
theorem DeclaresShard.ne_base {name : Text} {s : Split} {i : ℕ} (h : DeclaresShard name s i) :
    name ≠ s.base := by
  obtain ⟨idx, total, ext, rfl, -⟩ := h
  intro heq
  have hlength := congrArg List.length heq
  rw [List.length_append, List.length_append] at hlength
  exact absurd hlength (by simp)

/-- The steps of recognising a shard. -/
theorem ggufShard_eq (name : Text) :
    ggufShard name =
      if (".gguf".toList.isSuffixOf name || ".GGUF".toList.isSuffixOf name) = true then
        (rsplitOnce "-of-".toList (name.take (name.length - 5))).bind fun p =>
          if (p.2.isEmpty || !p.2.all isAsciiDigit) = true then none
          else (rsplitOnce "-".toList p.1).bind fun q =>
            if (q.2.isEmpty || !q.2.all isAsciiDigit) = true then none
            else if decimalOf q.2 < 2 ^ 32 then some (q.1, decimalOf q.2) else none
      else none := rfl

/-- **What the grouping recognises as a shard** declares that it is one; its extension is
written `.gguf` or `.GGUF`, and its index fits in 32 bits. -/
theorem ggufShard_eq_some_iff {name base : Text} {index : ℕ} :
    ggufShard name = some (base, index) ↔
      (∃ total, DeclaresShard name ⟨base, total⟩ index) ∧ index < 2 ^ 32 ∧
        (".gguf".toList <:+ name ∨ ".GGUF".toList <:+ name) := by
  constructor
  -- the source cuts from the right: `.gguf`, then the total after `-of-`, then the number after the
  -- last dash; each cut is followed here and gives one part of the declared name
  · intro h
    rw [ggufShard_eq] at h
    split at h
    swap
    · cases h
    rename_i hsuffix
    obtain ⟨⟨left, total⟩, hleft, h⟩ := Option.bind_eq_some_iff.mp h
    dsimp only at h
    split at h
    · cases h
    rename_i htotal
    obtain ⟨⟨base', idx⟩, hbase, h⟩ := Option.bind_eq_some_iff.mp h
    dsimp only at h
    split at h
    · cases h
    rename_i hidx
    split at h
    swap
    · cases h
    rename_i hnumber
    obtain ⟨rfl, rfl⟩ := Prod.mk.inj (Option.some.inj h)
    have hends : ∃ ext, toAsciiLowercase ext = ".gguf".toList ∧ ext <:+ name ∧
        (ext = ".gguf".toList ∨ ext = ".GGUF".toList) := by
      obtain hs | hs := Bool.or_eq_true_iff.mp hsuffix
      · exact ⟨_, by decide, List.isSuffixOf_iff_suffix.mp hs, Or.inl rfl⟩
      · exact ⟨_, by decide, List.isSuffixOf_iff_suffix.mp hs, Or.inr rfl⟩
    obtain ⟨ext, hext, ⟨stem, hname⟩, hcase⟩ := hends
    have hdigits : ∀ {s : Text}, ¬ (s.isEmpty || !s.all isAsciiDigit) = true → Digits s := by
      intro s hs
      rw [Bool.or_eq_true, not_or, Bool.not_eq_true, Bool.not_eq_true, Bool.not_eq_false',
        List.isEmpty_eq_false_iff] at hs
      exact hs
    have hends : ".gguf".toList <:+ name ∨ ".GGUF".toList <:+ name := by
      obtain rfl | rfl := hcase
      · exact Or.inl ⟨stem, hname⟩
      · exact Or.inr ⟨stem, hname⟩
    refine ⟨⟨decimalOf total, idx, total, ext, ?_, hdigits hidx, hdigits htotal, hext, rfl,
      rfl⟩, hnumber, hends⟩
    rw [← hname, take_stem (length_of_gguf hext)] at hleft
    rw [← hname, append_of_rsplitOnce hleft, append_of_rsplitOnce hbase]
    simp
  -- a declared name is cut at the very places it was built from
  · rintro ⟨⟨total, hdeclares⟩, hnumber, hsuffix⟩
    obtain ⟨idx, total, hidx, htotal, hleft, hbase, rfl, -⟩ := hdeclares.splits
    have hends : (".gguf".toList.isSuffixOf name || ".GGUF".toList.isSuffixOf name) = true :=
      Bool.or_eq_true_iff.mpr (hsuffix.imp List.isSuffixOf_iff_suffix.mpr
        List.isSuffixOf_iff_suffix.mpr)
    have hdigits : ∀ {s : Text}, Digits s → ¬ (s.isEmpty || !s.all isAsciiDigit) = true := by
      intro s hs
      rw [hs.2, Bool.not_true, Bool.or_false, List.isEmpty_iff]
      exact hs.1
    rw [ggufShard_eq, if_pos hends, hleft, Option.bind_some]
    dsimp only
    rw [if_neg (hdigits htotal)]
    show (rsplitOnce "-".toList (base ++ ("-".toList ++ idx))).bind _ = _
    rw [show rsplitOnce "-".toList (base ++ ("-".toList ++ idx)) = some (base, idx) from hbase,
      Option.bind_some]
    dsimp only
    rw [if_neg (hdigits hidx)]
    exact if_pos hnumber

/-! ## Quants -/

/-- A GGUF file, by its extension in any letter case. -/
def HfFile.isGguf (f : HfFile) : Bool := f.endsWith ".gguf"

/-- One quant, possibly split across shard files, as the library offers it for download. -/
structure GgufQuant where
  label : Text
  /-- The shard files in order. A standalone quant has exactly one. -/
  files : List HfFile
  deriving DecidableEq, Repr

/-- What a file is grouped by: the base of its split, or else its name. -/
def ggufKey (f : HfFile) : Text :=
  match ggufShard f.rfilename with
  | some (base, _) => base
  | none => f.rfilename

/-- What the files of a quant are sorted by, which is zero for a file that is no shard. -/
def ggufIndex (f : HfFile) : ℕ :=
  match ggufShard f.rfilename with
  | some (_, index) => index
  | none => 0

/-- The files of a quant, in order of their index, files of one index in the listing's order. -/
def sortShards (files : List HfFile) : List HfFile :=
  Ranking.ranked (fun f => OrderDual.toDual (ggufIndex f)) files

/-- Group the GGUF files into one entry per quant, in order of first appearance. -/
def ggufQuants (upper : Char → Text) (files : List HfFile) : List GgufQuant :=
  (Grouping.grouped ggufKey (files.filter HfFile.isGguf)).map fun group =>
    let files := sortShards group.2
    { label := match files with
        | [f] => f.variantLabel upper
        | _ => quantLabelFromStem upper group.1
      files := files }

/-- Two files are parts of one model: they are the same file, or shards of one split. -/
def SameModel (f g : HfFile) : Prop :=
  f.rfilename = g.rfilename ∨
    ∃ s i j, DeclaresShard f.rfilename s i ∧ DeclaresShard g.rfilename s j

/-- Some quants are the GGUF files of a repository, each in exactly one of them, two of them
in the same one if and only if they are parts of one model, and in each the shards in order
of their index. -/
structure PartitionedBySplit (files : List HfFile) (quants : List GgufQuant) : Prop where
  all : (quants.flatMap GgufQuant.files).Perm (files.filter HfFile.isGguf)
  once : ∀ f ∈ files.filter HfFile.isGguf, ∃! q, q ∈ quants ∧ f ∈ q.files
  together : ∀ f ∈ files.filter HfFile.isGguf, ∀ g ∈ files.filter HfFile.isGguf,
    (∃ q ∈ quants, f ∈ q.files ∧ g ∈ q.files) ↔ SameModel f g
  ordered : ∀ q ∈ quants, q.files.Pairwise fun f g => ∀ s i t j,
    DeclaresShard f.rfilename s i → DeclaresShard g.rfilename t j → i ≤ j

variable {upper : Char → Text} {files : List HfFile}

theorem mem_sortShards {files : List HfFile} {f : HfFile} :
    f ∈ sortShards files ↔ f ∈ files :=
  Ranking.perm_ranked.mem_iff

/-- **The files of a quant** are those with its key. -/
theorem mem_ggufQuants {q : GgufQuant} (hq : q ∈ ggufQuants upper files) :
    ∃ key, (∀ f, f ∈ q.files ↔ f ∈ files.filter HfFile.isGguf ∧ ggufKey f = key) ∧
      q.files = sortShards (Grouping.having ggufKey (files.filter HfFile.isGguf) key) ∧
      ∀ q' ∈ ggufQuants upper files, (∃ f ∈ q'.files, ggufKey f = key) → q' = q := by
  obtain ⟨⟨key, group⟩, hgroup, rfl⟩ := List.mem_map.mp hq
  obtain ⟨rfl, -⟩ := Grouping.mem_grouped.mp hgroup
  refine ⟨key, fun f => mem_sortShards.trans Grouping.mem_having, rfl, ?_⟩
  rintro q' hq' ⟨f, hf, hkey⟩
  obtain ⟨⟨key', group'⟩, hgroup', rfl⟩ := List.mem_map.mp hq'
  obtain ⟨rfl, -⟩ := Grouping.mem_grouped.mp hgroup'
  have hf' := Grouping.mem_having.mp (mem_sortShards.mp hf)
  rw [hkey] at hf'
  rw [hf'.2]

/-- Every file has a quant. -/
theorem exists_quant {f : HfFile} (hf : f ∈ files.filter HfFile.isGguf) :
    ∃ q ∈ ggufQuants upper files, f ∈ q.files := by
  have hgroup : f ∈ Grouping.having ggufKey (files.filter HfFile.isGguf) (ggufKey f) :=
    Grouping.mem_having.mpr ⟨hf, rfl⟩
  refine ⟨_, List.mem_map_of_mem (Grouping.mem_grouped.mpr
    ⟨rfl, List.ne_nil_of_mem hgroup⟩), ?_⟩
  exact mem_sortShards.mpr hgroup

/-- **Two files are in the same quant exactly when they have the same key.** -/
theorem together_iff {f g : HfFile} (hf : f ∈ files.filter HfFile.isGguf)
    (hg : g ∈ files.filter HfFile.isGguf) :
    (∃ q ∈ ggufQuants upper files, f ∈ q.files ∧ g ∈ q.files) ↔ ggufKey f = ggufKey g := by
  constructor
  · rintro ⟨q, hq, hfq, hgq⟩
    obtain ⟨key, hmem, -⟩ := mem_ggufQuants hq
    rw [((hmem f).mp hfq).2, ((hmem g).mp hgq).2]
  · intro hkey
    obtain ⟨q, hq, hfq⟩ := @exists_quant upper _ _ hf
    obtain ⟨key, hmem, -⟩ := mem_ggufQuants hq
    have hfkey := ((hmem f).mp hfq).2
    exact ⟨q, hq, hfq, (hmem g).mpr ⟨hg, hkey ▸ hfkey⟩⟩

/-- Each file is in exactly one quant. -/
theorem once_in_quants {f : HfFile} (hf : f ∈ files.filter HfFile.isGguf) :
    ∃! q, q ∈ ggufQuants upper files ∧ f ∈ q.files := by
  obtain ⟨q, hq, hfq⟩ := @exists_quant upper _ _ hf
  obtain ⟨key, hmem, -, hunique⟩ := mem_ggufQuants hq
  exact ⟨q, ⟨hq, hfq⟩, fun q' hq' => hunique q' hq'.1 ⟨f, hq'.2, ((hmem f).mp hfq).2⟩⟩

/-- **Together the quants are the GGUF files.** -/
theorem perm_ggufQuants :
    ((ggufQuants upper files).flatMap GgufQuant.files).Perm (files.filter HfFile.isGguf) := by
  unfold ggufQuants
  rw [List.flatMap_map]
  refine List.Perm.trans ?_ (@Grouping.perm_grouped _ _ _ ggufKey _)
  exact List.Perm.flatMap_left _ fun group _ => Ranking.perm_ranked

/-! ## When the quants are the splits -/

/-- A shard that the grouping recognises by its name: a base, a number and a total before
the extension. -/
def Recognised (f : HfFile) : Prop := (ggufShard f.rfilename).isSome = true

/-- The names of the GGUF files tell the splits apart for the grouping. -/
structure SplitNames (files : List HfFile) : Prop where
  /-- Recognised shards of one base have one total. -/
  totals : ∀ f ∈ files.filter HfFile.isGguf, ∀ g ∈ files.filter HfFile.isGguf,
    Recognised f → Recognised g → ∀ s i t j, DeclaresShard f.rfilename s i →
      DeclaresShard g.rfilename t j → s.base = t.base → s.total = t.total
  /-- Shards of one split that are not one file are recognised. -/
  known : ∀ f ∈ files.filter HfFile.isGguf, ∀ g ∈ files.filter HfFile.isGguf,
    f.rfilename ≠ g.rfilename → ∀ s i j, DeclaresShard f.rfilename s i →
      DeclaresShard g.rfilename s j → Recognised f
  /-- A file that is not recognised as a shard is not called as the base of one that is. -/
  apart : ∀ f ∈ files.filter HfFile.isGguf, ∀ g ∈ files.filter HfFile.isGguf,
    ¬ Recognised f → Recognised g → ∀ s i, DeclaresShard g.rfilename s i →
      f.rfilename ≠ s.base

/-- The key of a recognised shard is its base. -/
theorem Recognised.key {f : HfFile} (h : Recognised f) :
    ∃ s i, DeclaresShard f.rfilename s i ∧ ggufKey f = s.base ∧ ggufIndex f = i := by
  obtain ⟨⟨base, index⟩, hshard⟩ := Option.isSome_iff_exists.mp h
  obtain ⟨⟨total, hdeclares⟩, -⟩ := ggufShard_eq_some_iff.mp hshard
  refine ⟨⟨base, total⟩, index, hdeclares, ?_, ?_⟩
  · unfold ggufKey
    rw [hshard]
  · unfold ggufIndex
    rw [hshard]

/-- The key of any other file is its name. -/
theorem key_of_not_recognised {f : HfFile} (h : ¬ Recognised f) :
    ggufKey f = f.rfilename := by
  unfold ggufKey
  rw [Option.not_isSome_iff_eq_none.mp h]

theorem Recognised.key_eq {f : HfFile} (h : Recognised f) {s : Split} {i : ℕ}
    (hs : DeclaresShard f.rfilename s i) : ggufKey f = s.base := by
  obtain ⟨t, j, ht, hkey, -⟩ := h.key
  rw [hkey, (hs.unique ht).1]

theorem Recognised.index_eq {f : HfFile} (h : Recognised f) {s : Split} {i : ℕ}
    (hs : DeclaresShard f.rfilename s i) : ggufIndex f = i := by
  obtain ⟨t, j, ht, -, hindex⟩ := h.key
  rw [hindex, (hs.unique ht).2]

/-- **Names that tell the splits apart make the keys of the parts of one model the
same, and only theirs.** -/
theorem SplitNames.key_iff (h : SplitNames files) {f g : HfFile}
    (hf : f ∈ files.filter HfFile.isGguf) (hg : g ∈ files.filter HfFile.isGguf) :
    ggufKey f = ggufKey g ↔ SameModel f g := by
  by_cases hsame : f.rfilename = g.rfilename
  · refine ⟨fun _ => Or.inl hsame, fun _ => ?_⟩
    unfold ggufKey
    rw [hsame]
  constructor
  · intro hkey
    by_cases hrf : Recognised f
    · obtain ⟨s, i, hs, hfkey, -⟩ := hrf.key
      by_cases hrg : Recognised g
      · obtain ⟨t, j, ht, hgkey, -⟩ := hrg.key
        have hbase : s.base = t.base := by rw [← hfkey, hkey, hgkey]
        have htotal := h.totals f hf g hg hrf hrg s i t j hs ht hbase
        have hsplit : s = t := by
          cases s
          cases t
          cases hbase
          cases htotal
          rfl
        exact Or.inr ⟨s, i, j, hs, hsplit ▸ ht⟩
      · rw [key_of_not_recognised hrg, hfkey] at hkey
        exact absurd hkey.symm (h.apart g hg f hf hrg hrf s i hs)
    · by_cases hrg : Recognised g
      · obtain ⟨t, j, ht, hgkey, -⟩ := hrg.key
        rw [key_of_not_recognised hrf, hgkey] at hkey
        exact absurd hkey (h.apart f hf g hg hrf hrg t j ht)
      · rw [key_of_not_recognised hrf, key_of_not_recognised hrg] at hkey
        exact absurd hkey hsame
  · rintro (heq | ⟨s, i, j, hs, ht⟩)
    · exact absurd heq hsame
    · have hrf := h.known f hf g hg hsame s i j hs ht
      have hrg := h.known g hg f hf (Ne.symm hsame) s j i ht hs
      rw [hrf.key_eq hs, hrg.key_eq ht]

/-- Names that tell the splits apart make the order of the indices that of the shards. -/
theorem SplitNames.ordered (h : SplitNames files) {q : GgufQuant}
    (hq : q ∈ ggufQuants upper files) : q.files.Pairwise fun f g => ∀ s i t j,
      DeclaresShard f.rfilename s i → DeclaresShard g.rfilename t j → i ≤ j := by
  obtain ⟨key, hmem, hfiles, -⟩ := mem_ggufQuants hq
  have hsorted : q.files.Pairwise fun f g => ggufIndex f ≤ ggufIndex g := by
    rw [hfiles]
    exact @Ranking.pairwise_ranked _ _ _ (fun f => OrderDual.toDual (ggufIndex f)) _
  refine hsorted.imp_of_mem fun {f g} hf hg hle s i t j hs ht => ?_
  obtain ⟨hf', hfkey⟩ := (hmem f).mp hf
  obtain ⟨hg', hgkey⟩ := (hmem g).mp hg
  by_cases hsame : f.rfilename = g.rfilename
  · exact ((hsame ▸ hs).unique ht).2.le
  · obtain heq | ⟨s', i', j', hs', ht'⟩ := (h.key_iff hf' hg').mp (hfkey.trans hgkey.symm)
    · exact absurd heq hsame
    · have hrf := h.known f hf' g hg' hsame s' i' j' hs' ht'
      have hrg := h.known g hg' f hf' (Ne.symm hsame) s' j' i' ht' hs'
      rw [hrf.index_eq hs, hrg.index_eq ht] at hle
      exact hle

/-- **The quants of a repository are its splits and its single files exactly when the names
of its files tell the splits apart**, for every list of files. -/
theorem ggufQuants_partition_iff (upper : Char → Text) (files : List HfFile) :
    PartitionedBySplit files (ggufQuants upper files) ↔ SplitNames files := by
  constructor
  · intro h
    have hkey : ∀ f ∈ files.filter HfFile.isGguf, ∀ g ∈ files.filter HfFile.isGguf,
        (ggufKey f = ggufKey g ↔ SameModel f g) := fun f hf g hg =>
      (together_iff hf hg).symm.trans (h.together f hf g hg)
    refine ⟨?_, ?_, ?_⟩
    · intro f hf g hg hrf hrg s i t j hs ht hbase
      have hkeys : ggufKey f = ggufKey g := by rw [hrf.key_eq hs, hrg.key_eq ht, hbase]
      obtain hname | ⟨s', i', j', hs', ht'⟩ := (hkey f hf g hg).mp hkeys
      · have hs' : DeclaresShard g.rfilename s i := hname ▸ hs
        rw [(hs'.unique ht).1]
      · rw [(hs.unique hs').1, (ht.unique ht').1]
    · intro f hf g hg hne s i j hs ht
      by_contra hrf
      have hkeys := (hkey f hf g hg).mpr (Or.inr ⟨s, i, j, hs, ht⟩)
      rw [key_of_not_recognised hrf] at hkeys
      by_cases hrg : Recognised g
      · rw [hrg.key_eq ht] at hkeys
        exact hs.ne_base hkeys
      · rw [key_of_not_recognised hrg] at hkeys
        exact hne hkeys
    · intro f hf g hg hrf hrg s i hs hname
      have hkeys : ggufKey f = ggufKey g := by
        rw [key_of_not_recognised hrf, hrg.key_eq hs, hname]
      obtain hsame | ⟨s', i', j', hs', ht'⟩ := (hkey f hf g hg).mp hkeys
      · exact hs.ne_base (hsame.symm.trans hname)
      · rw [(hs.unique ht').1] at hname
        exact hs'.ne_base hname
  · intro h
    exact ⟨perm_ggufQuants, fun f => once_in_quants, fun f hf g hg =>
      (together_iff hf hg).trans (h.key_iff hf hg), fun q => h.ordered⟩

/-! ## A split that was made again -/

/-- The first shard of a split in two, and of a split of the same quant in three. -/
def resplitFiles : List HfFile := [
  ⟨"GLM-5-Q4_K_M-00001-of-00002.gguf".toList, 10, some (List.replicate 64 'a'), none⟩,
  ⟨"GLM-5-Q4_K_M-00001-of-00003.gguf".toList, 10, some (List.replicate 64 'b'), none⟩]

/-- **Shards of different splits are one quant** when their splits have one base. -/
theorem resplitFiles_merged :
    ¬ PartitionedBySplit resplitFiles (ggufQuants (fun c => [c.toUpper]) resplitFiles) := by
  intro h
  have hfirst : DeclaresShard "GLM-5-Q4_K_M-00001-of-00002.gguf".toList
      ⟨"GLM-5-Q4_K_M".toList, 2⟩ 1 :=
    ⟨"00001".toList, "00002".toList, ".gguf".toList, by decide, by decide, by decide,
      by decide, rfl, rfl⟩
  have hsecond : DeclaresShard "GLM-5-Q4_K_M-00001-of-00003.gguf".toList
      ⟨"GLM-5-Q4_K_M".toList, 3⟩ 1 :=
    ⟨"00001".toList, "00003".toList, ".gguf".toList, by decide, by decide, by decide,
      by decide, rfl, rfl⟩
  have hall : resplitFiles.filter HfFile.isGguf = resplitFiles := by decide
  have hf : resplitFiles[0] ∈ resplitFiles.filter HfFile.isGguf := by
    rw [hall]
    exact List.mem_cons_self
  have hg : resplitFiles[1] ∈ resplitFiles.filter HfFile.isGguf := by
    rw [hall]
    exact List.mem_cons_of_mem _ List.mem_cons_self
  have hkeys : ggufKey resplitFiles[0] = ggufKey resplitFiles[1] := by decide +kernel
  obtain hname | ⟨s, i, j, hs, ht⟩ :=
    (h.together _ hf _ hg).mp ((together_iff hf hg).mpr hkeys)
  · exact absurd hname (by decide)
  · have htwo := (hfirst.unique hs).1
    rw [(ht.unique hsecond).1] at htwo
    exact absurd (congrArg Split.total htwo) (by decide)

end Atlas
