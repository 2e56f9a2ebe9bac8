import Atlas.Text

/-!
# Texts put together, and cut again

What splitting and trimming do to a text that was put together from known parts.
-/

namespace Text

/-! ## Characters -/

/-- A letter folds to a letter. -/
theorem toLower_eq_iff {c d : Char} (hd : isAsciiAlphabetic d = false) :
    c.toLower = d ↔ c = d := by
  by_cases hupper : c.val ≥ 'A'.val ∧ c.val ≤ 'Z'.val
  · -- neither an upper-case letter nor what it folds to is that character
    have hge : 65 ≤ c.val.toNat := UInt32.le_iff_toNat_le.mp hupper.1
    have hle : c.val.toNat ≤ 90 := UInt32.le_iff_toNat_le.mp hupper.2
    have hfold : ∀ n < 91, 65 ≤ n → isAsciiAlphabetic (Char.ofNat n) = true ∧
        isAsciiAlphabetic (Char.ofNat n).toLower = true := by
      decide
    obtain ⟨hc, hlower⟩ := hfold c.val.toNat (Nat.lt_succ_of_le hle) hge
    have hself : Char.ofNat c.val.toNat = c := Char.ofNat_toNat c
    rw [hself] at hc hlower
    refine iff_of_false (fun h => ?_) fun h => ?_
    · rw [h, hd] at hlower
      cases hlower
    · rw [h, hd] at hc
      cases hc
  · have hself : c.toLower = c := dif_neg hupper
    rw [hself]

theorem isWhitespace_toLower (c : Char) : isWhitespace c.toLower = isWhitespace c := by
  by_cases hupper : c.val ≥ 'A'.val ∧ c.val ≤ 'Z'.val
  · have hge : 65 ≤ c.val.toNat := UInt32.le_iff_toNat_le.mp hupper.1
    have hle : c.val.toNat ≤ 90 := UInt32.le_iff_toNat_le.mp hupper.2
    have hfold : ∀ n < 91, 65 ≤ n →
        isWhitespace (Char.ofNat n).toLower = isWhitespace (Char.ofNat n) := by
      decide
    have hc := hfold c.val.toNat (Nat.lt_succ_of_le hle) hge
    rwa [show Char.ofNat c.val.toNat = c from Char.ofNat_toNat c] at hc
  · have hself : c.toLower = c := dif_neg hupper
    rw [hself]

/-- A character that is no letter is in the folded text exactly if it is in the text. -/
theorem mem_toAsciiLowercase {d : Char} (hd : isAsciiAlphabetic d = false) {s : Text} :
    d ∈ s.toAsciiLowercase ↔ d ∈ s := by
  unfold toAsciiLowercase
  rw [List.mem_map]
  constructor
  · rintro ⟨c, hc, h⟩
    rwa [(toLower_eq_iff hd).mp h] at hc
  · intro h
    exact ⟨d, h, (toLower_eq_iff hd).mpr rfl⟩

theorem utf8Len_eq_length {s : Text} (h : ∀ c ∈ s, c.utf8Size = 1) : s.utf8Len = s.length := by
  unfold utf8Len
  rw [List.map_congr_left h, List.map_const', List.sum_replicate_nat, Nat.mul_one]

/-! ## Splitting -/

theorem splitOnce_append {p : Char} {pat s : Text} (hs : p ∉ s) (rest : Text) :
    splitOnce (p :: pat) (s ++ (p :: pat ++ rest)) = some (s, rest) := by
  induction s with
  | nil =>
    have hprefix : (p :: pat).isPrefixOf (p :: (pat ++ rest)) = true :=
      List.isPrefixOf_iff_prefix.mpr ⟨rest, rfl⟩
    show splitOnce (p :: pat) (p :: (pat ++ rest)) = _
    rw [splitOnce, hprefix, if_pos rfl]
    refine congrArg (fun t => some (([] : Text), t)) ?_
    exact List.drop_left
  | cons c s ih =>
    have hne : ¬ (p :: pat).isPrefixOf (c :: (s ++ (p :: pat ++ rest))) = true := by
      intro hprefix
      obtain ⟨t, ht⟩ := List.isPrefixOf_iff_prefix.mp hprefix
      exact hs ((List.cons.inj ht).1 ▸ List.mem_cons_self)
    show splitOnce (p :: pat) (c :: (s ++ (p :: pat ++ rest))) = _
    rw [splitOnce, if_neg hne, ih fun h => hs (List.mem_cons_of_mem c h)]
    rfl

theorem splitOnce_eq_none {p : Char} {pat s : Text} (hs : p ∉ s) :
    splitOnce (p :: pat) s = none := by
  induction s with
  | nil => rfl
  | cons c s ih =>
    have hne : ¬ (p :: pat).isPrefixOf (c :: s) = true := by
      intro hprefix
      obtain ⟨t, ht⟩ := List.isPrefixOf_iff_prefix.mp hprefix
      exact hs ((List.cons.inj ht).1 ▸ List.mem_cons_self)
    rw [splitOnce, if_neg hne, ih fun h => hs (List.mem_cons_of_mem c h)]
    rfl

/-- A text is what is before the pattern, the pattern, and what is after it. -/
theorem append_of_splitOnce {pat s a b : Text} (h : splitOnce pat s = some (a, b)) :
    s = a ++ (pat ++ b) := by
  induction s generalizing a with
  | nil =>
    rw [splitOnce] at h
    split at h
    · rename_i hpat
      cases h
      rw [hpat]
      rfl
    · cases h
  | cons c s ih =>
    rw [splitOnce] at h
    split at h
    · rename_i hpat
      cases h
      exact (List.prefix_iff_eq_append.mp (List.isPrefixOf_iff_prefix.mp hpat)).symm
    · obtain ⟨parts, hparts, heq⟩ := Option.map_eq_some_iff.mp h
      cases heq
      exact congrArg (c :: ·) (ih hparts)

/-! ## Trimming -/

theorem trimEndMatches_of_not_suffix {pat s : Text} (h : ¬ pat <:+ s) :
    trimEndMatches pat s = s := by
  rw [trimEndMatches, if_neg fun hboth => h (List.isSuffixOf_iff_suffix.mp hboth.2)]

theorem trimEndMatches_append {pat : Text} (hpat : pat ≠ []) (s : Text) :
    trimEndMatches pat (s ++ pat) = trimEndMatches pat s := by
  have hsuffix : pat.isSuffixOf (s ++ pat) = true :=
    List.isSuffixOf_iff_suffix.mpr (List.suffix_append s pat)
  rw [trimEndMatches, if_pos ⟨hpat, hsuffix⟩, List.length_append, Nat.add_sub_cancel,
    List.take_left]

theorem trimEndMatches_replicate (c : Char) (s : Text) (n : ℕ) :
    trimEndMatches [c] (s ++ List.replicate n c) = trimEndMatches [c] s := by
  induction n with
  | zero => rw [List.replicate_zero, List.append_nil]
  | succ n ih =>
    rw [List.replicate_succ', ← List.append_assoc,
      trimEndMatches_append (List.cons_ne_nil c []), ih]

/-- A text has a character at its end exactly if that is its last one. -/
theorem singleton_suffix_iff {c : Char} {s : Text} : [c] <:+ s ↔ s.getLast? = some c := by
  constructor
  · rintro ⟨t, rfl⟩
    exact List.getLast?_concat
  · intro h
    obtain ⟨t, rfl⟩ := List.getLast?_eq_some_iff.mp h
    exact List.suffix_append t [c]

/-- What is between whitespace, if it neither starts nor ends with it. -/
theorem trim_surrounded {before after s : Text} (hs : s ≠ [])
    (hbefore : ∀ c ∈ before, isWhitespace c = true) (hafter : ∀ c ∈ after, isWhitespace c = true)
    (hhead : ∀ c ∈ s.head?, isWhitespace c = false)
    (hlast : ∀ c ∈ s.getLast?, isWhitespace c = false) : (before ++ s ++ after).trim = s := by
  obtain ⟨c, t, rfl⟩ := List.exists_cons_of_ne_nil hs
  have hfirst : isWhitespace c = false := hhead c rfl
  unfold trim
  have hdrop : (before ++ (c :: t) ++ after).dropWhile isWhitespace = c :: t ++ after := by
    rw [List.append_assoc, List.dropWhile_append_of_pos hbefore, List.cons_append,
      List.dropWhile_cons_of_neg (by rw [hfirst]; exact Bool.false_ne_true)]
  rw [hdrop]
  unfold List.rdropWhile
  rw [List.reverse_append, List.dropWhile_append_of_pos fun a ha =>
    hafter a (List.mem_reverse.mp ha)]
  have hrev : (c :: t).reverse.dropWhile isWhitespace = (c :: t).reverse := by
    refine List.dropWhile_eq_self_iff.mpr fun hlen => ?_
    refine Bool.eq_false_iff.mp (hlast _ ?_)
    rw [← List.head?_reverse]
    exact List.head?_eq_getElem? .. ▸ List.getElem?_eq_getElem hlen
  rw [hrev, List.reverse_reverse]

/-- Trimming takes nothing but what was there. -/
theorem mem_of_mem_trim {c : Char} {s : Text} (h : c ∈ s.trim) : c ∈ s :=
  (List.dropWhile_suffix _).subset ((List.rdropWhile_prefix _ _).subset h)

/-- What does not begin with a blank is only cut at its end. -/
theorem trim_isPrefix {s : Text} (h : ∀ c ∈ s.head?, isWhitespace c = false) : s.trim <+: s := by
  have hdrop : s.dropWhile isWhitespace = s := by
    cases s with
    | nil => rfl
    | cons c s =>
      exact List.dropWhile_cons_of_neg (by rw [h c rfl]; exact Bool.false_ne_true)
  unfold trim
  rw [hdrop]
  exact List.rdropWhile_prefix _ _

/-- A trimmed text does not begin with a blank. -/
theorem head?_trim (s : Text) : ∀ c ∈ s.trim.head?, isWhitespace c = false := by
  intro c hc
  obtain ⟨rest, hrest⟩ : s.trim <+: s.dropWhile isWhitespace := List.rdropWhile_prefix _ _
  have hnot := List.head?_dropWhile_not isWhitespace s
  rw [← hrest, List.head?_append, show s.trim.head? = some c from hc] at hnot
  exact hnot

theorem trim_eq_self {s : Text} (h : ∀ c ∈ s, isWhitespace c = false) : s.trim = s := by
  by_cases hs : s = []
  · rw [hs]
    rfl
  · have htrim := @trim_surrounded [] [] s hs (fun c hc => nomatch hc)
      (fun c hc => nomatch hc) (fun c hc => h c (List.mem_of_mem_head? hc))
      fun c hc => h c (List.mem_of_getLast? hc)
    rwa [List.nil_append, List.append_nil] at htrim

end Text
