import Atlas.InstallPaths

/-!
# Slugs

`slugify` makes a directory name of a model's name: ASCII letters and digits in lower case,
`.`, `_` and `-` as they are, one dash for anything else, and no dash at the ends. The name
is a component of the path that `installDir` builds.

A slug is never empty, has no separator and no control character, and is its own slug. But
the dots are kept, so that the slug of `..` is `..`: `slugify_safe_iff` says for which names
the slug is a normal component, and the directory below its parent.
-/

namespace Atlas

open Text LexicalPath

/-! ## The slug of a name -/

/-- The loop over the characters; `lastDash` says that the last one became a dash. -/
def slugLoop : Text → Text → Bool → Text
  | [], out, _ => out
  | ch :: rest, out, lastDash =>
    if isAsciiAlphanumeric ch then slugLoop rest (out ++ [ch.toLower]) false
    else if ['.', '_', '-'].contains ch then slugLoop rest (out ++ [ch]) false
    else if !lastDash then slugLoop rest (out ++ ['-']) true
    else slugLoop rest out lastDash

/-- Turn an arbitrary model name into a slug; a name with nothing to keep becomes `model`. -/
def slugify (input : Text) : Text :=
  let trimmed := trimMatches (· = '-') (slugLoop input [] false)
  if trimmed.isEmpty then "model".toList else trimmed

/-! ## What the loop makes -/

/-- What a name is made of: the characters of a slug but for the dash. -/
def isNameChar (c : Char) : Bool := isAsciiAlphanumeric c || c = '.' || c = '_'

/-- What the loop appends, whose state is whether the last character was a dash it put there. -/
def slugChars (lastDash : Bool) : Text → Text
  | [] => []
  | ch :: rest =>
    if isNameChar ch then ch.toLower :: slugChars false rest
    else if ch = '-' then '-' :: slugChars false rest
    else if lastDash then slugChars true rest
    else '-' :: slugChars true rest

theorem slugLoop_eq (s out : Text) (lastDash : Bool) :
    slugLoop s out lastDash = out ++ slugChars lastDash s := by
  induction s generalizing out lastDash with
  | nil => exact (List.append_nil out).symm
  | cons ch rest ih =>
    unfold slugLoop slugChars isNameChar
    cases halnum : isAsciiAlphanumeric ch with
    | true =>
      rw [if_pos rfl, ih, List.append_assoc]
      rfl
    | false =>
      rw [if_neg Bool.false_ne_true, Bool.false_or]
      by_cases hdot : ch = '.'
      · subst hdot
        rw [if_pos (by decide), ih, List.append_assoc]
        rfl
      · by_cases hunder : ch = '_'
        · subst hunder
          rw [if_pos (by decide), ih, List.append_assoc]
          rfl
        · by_cases hdash : ch = '-'
          · subst hdash
            rw [if_pos (by decide), ih, List.append_assoc]
            rfl
          · -- anything else becomes a dash, unless the last one did
            cases lastDash with
            | true => simp [hdot, hunder, hdash, ih]
            | false => simp [hdot, hunder, hdash, ih]

/-- The characters of a name are ASCII. -/
theorem isNameChar_ascii {c : Char} (h : isNameChar c = true) : c.toNat < 128 := by
  unfold isNameChar isAsciiAlphanumeric at h
  by_contra hlarge
  have hge : 128 ≤ c.val.toNat := Nat.le_of_not_lt hlarge
  simp only [Bool.or_eq_true, Bool.and_eq_true, decide_eq_true_eq, Char.le_def,
    UInt32.le_iff_toNat_le] at h
  rcases h with (((⟨-, h⟩ | ⟨-, h⟩) | ⟨-, h⟩) | rfl) | rfl
  · exact absurd (hge.trans h) (by decide)
  · exact absurd (hge.trans h) (by decide)
  · exact absurd (hge.trans h) (by decide)
  · exact absurd hge (by decide)
  · exact absurd hge (by decide)

/-- A character of a name folds to one. -/
theorem isNameChar_toLower {c : Char} (h : isNameChar c = true) :
    isNameChar c.toLower = true ∧ c.toLower.toLower = c.toLower ∧
      (c.toLower = '.' → c = '.') := by
  have hall : ∀ c : Char, c.toNat < 128 → isNameChar c = true →
      isNameChar c.toLower = true ∧ c.toLower.toLower = c.toLower ∧ (c.toLower = '.' → c = '.') :=
    forall_char_lt (by decide +kernel)
  exact hall c (isNameChar_ascii h) h

theorem slugChars_cons_of_name {ch : Char} (h : isNameChar ch = true) (lastDash : Bool)
    (rest : Text) : slugChars lastDash (ch :: rest) = ch.toLower :: slugChars false rest :=
  if_pos h

/-- What is no character of a name becomes a dash, or nothing. -/
theorem slugChars_cons_of_not {ch : Char} (h : isNameChar ch = false) (lastDash : Bool) :
    ∃ flag, (∀ rest, slugChars lastDash (ch :: rest) = '-' :: slugChars flag rest) ∨
      (lastDash = true ∧ ∀ rest, slugChars lastDash (ch :: rest) = slugChars flag rest) := by
  have hne : ¬ isNameChar ch = true := Bool.eq_false_iff.mp h
  by_cases hdash : ch = '-'
  · exact ⟨false, Or.inl fun rest => (if_neg hne).trans (if_pos hdash)⟩
  · refine ⟨true, ?_⟩
    cases lastDash with
    | true => exact Or.inr ⟨rfl, fun rest => (if_neg hne).trans (if_neg hdash)⟩
    | false => exact Or.inl fun rest => (if_neg hne).trans (if_neg hdash)

/-- A text without characters of a name becomes dashes. -/
theorem slugChars_dashes {s : Text} (hs : ∀ c ∈ s, isNameChar c = false) (lastDash : Bool) :
    ∀ c ∈ slugChars lastDash s, c = '-' := by
  induction s generalizing lastDash with
  | nil => exact fun c hc => nomatch hc
  | cons ch rest ih =>
    have hrest := ih fun c hc => hs c (List.mem_cons_of_mem ch hc)
    obtain ⟨flag, hcons | ⟨-, hcons⟩⟩ := slugChars_cons_of_not (hs ch List.mem_cons_self) lastDash
    · rw [hcons]
      exact List.forall_mem_cons.mpr ⟨rfl, hrest flag⟩
    · rw [hcons]
      exact hrest flag

/-- A character of a name does not become a dash. -/
theorem toLower_ne_dash {c : Char} (h : isNameChar c = true) : c.toLower ≠ '-' := by
  intro hdash
  have hname := (isNameChar_toLower h).1
  rw [hdash] at hname
  cases hname

/-- The dashes in front come from what is no character of a name. -/
theorem dropWhile_slugChars (s : Text) (lastDash : Bool) :
    (slugChars lastDash s).dropWhile (· = '-') =
      slugChars false (s.dropWhile fun c => !isNameChar c) := by
  induction s generalizing lastDash with
  | nil => rfl
  | cons ch rest ih =>
    cases hch : isNameChar ch with
    | true =>
      have hkept : (ch :: rest).dropWhile (fun c => !isNameChar c) = ch :: rest :=
        List.dropWhile_cons_of_neg (by simp [hch])
      rw [hkept, slugChars_cons_of_name hch, slugChars_cons_of_name hch,
        List.dropWhile_cons_of_neg (by simpa using toLower_ne_dash hch)]
    | false =>
      rw [List.dropWhile_cons_of_pos (by rw [hch]; rfl)]
      obtain ⟨flag, hcons | ⟨-, hcons⟩⟩ := slugChars_cons_of_not hch lastDash
      · rw [hcons, List.dropWhile_cons_of_pos (by rfl)]
        exact ih flag
      · rw [hcons]
        exact ih flag

/-- The slug of a text that is put together. -/
theorem slugChars_append (s t : Text) (lastDash : Bool) :
    ∃ flag, slugChars lastDash (s ++ t) = slugChars lastDash s ++ slugChars flag t := by
  induction s generalizing lastDash with
  | nil => exact ⟨lastDash, rfl⟩
  | cons ch rest ih =>
    cases hch : isNameChar ch with
    | true =>
      obtain ⟨flag, h⟩ := ih false
      refine ⟨flag, ?_⟩
      rw [List.cons_append, slugChars_cons_of_name hch, slugChars_cons_of_name hch, h]
      rfl
    | false =>
      obtain ⟨next, hcons | ⟨-, hcons⟩⟩ := slugChars_cons_of_not hch lastDash
      · obtain ⟨flag, h⟩ := ih next
        refine ⟨flag, ?_⟩
        rw [List.cons_append, hcons, hcons, h]
        rfl
      · obtain ⟨flag, h⟩ := ih next
        refine ⟨flag, ?_⟩
        rw [List.cons_append, hcons, hcons, h]

/-! ## The slug -/

/-- A name without what is in front of its first and behind its last character that a slug
keeps. -/
def stripName (s : Text) : Text := trimMatches (fun c => !isNameChar c) s

/-- What ends a text is trimmed when it is made of what is trimmed. -/
theorem rdropWhile_append_of_forall {p : Char → Bool} (s : Text) {t : Text}
    (ht : ∀ c ∈ t, p c = true) : (s ++ t).rdropWhile p = s.rdropWhile p := by
  induction t using List.reverseRecOn with
  | nil => rw [List.append_nil]
  | append_singleton t c ih =>
    rw [← List.append_assoc, List.rdropWhile_concat_pos p _ c (ht c (by simp))]
    exact ih fun d hd => ht d (List.mem_append_left _ hd)

/-- A text that is trimmed is empty, or ends in a character that is kept. -/
theorem trimmed_end {p : Char → Bool} (s : Text) :
    s.rdropWhile p = [] ∨ ∃ init c, p c = false ∧ s.rdropWhile p = init ++ [c] := by
  by_cases hnil : s.rdropWhile p = []
  · exact Or.inl hnil
  · exact Or.inr ⟨_, _, Bool.eq_false_iff.mpr (List.rdropWhile_last_not p s hnil),
      (List.dropLast_append_getLast hnil).symm⟩

/-- **What is left of the loop's text** is what the loop makes of the stripped name. -/
theorem trimmed_slugLoop (s : Text) :
    trimMatches (· = '-') (slugLoop s [] false) = slugChars false (stripName s) := by
  unfold stripName trimMatches
  rw [slugLoop_eq, List.nil_append, dropWhile_slugChars]
  generalize s.dropWhile (fun c => !isNameChar c) = t
  -- the tail behind the last character of the name becomes dashes
  have hsplit : (t.rdropWhile fun c => !isNameChar c) ++ (t.rtakeWhile fun c => !isNameChar c) =
      t := List.rdropWhile_append_rtakeWhile
  have htail : ∀ c ∈ t.rtakeWhile (fun c => !isNameChar c), isNameChar c = false := by
    intro c hc
    simpa using List.mem_rtakeWhile_imp hc
  obtain ⟨flag, happend⟩ := slugChars_append (t.rdropWhile fun c => !isNameChar c)
    (t.rtakeWhile fun c => !isNameChar c) false
  rw [hsplit] at happend
  rw [happend, rdropWhile_append_of_forall _ fun c hc =>
    decide_eq_true (slugChars_dashes htail flag c hc)]
  -- and the last character of the name is kept
  obtain hnil | ⟨init, c, hc, heq⟩ := trimmed_end (p := fun c => !isNameChar c) t
  · rw [hnil]
    rfl
  · rw [Bool.not_eq_false'] at hc
    obtain ⟨flag', hlast⟩ := slugChars_append init [c] false
    rw [heq, hlast, slugChars_cons_of_name hc]
    exact List.rdropWhile_concat_neg _ _ _ (by simpa using toLower_ne_dash hc)

/-- A stripped name begins and ends with a character of a name. -/
theorem stripName_cases (s : Text) :
    stripName s = [] ∨ ∃ c rest, isNameChar c = true ∧ stripName s = c :: rest := by
  unfold stripName trimMatches
  cases hdrop : s.dropWhile (fun c => !isNameChar c) with
  | nil => exact Or.inl rfl
  | cons c rest =>
    have hc : isNameChar c = true := by
      have hne : s.dropWhile (fun c => !isNameChar c) ≠ [] := by
        rw [hdrop]
        exact List.cons_ne_nil c rest
      have hhead := List.head_dropWhile_not (fun c => !isNameChar c) hne
      simp only [hdrop, List.head_cons] at hhead
      simpa using hhead
    obtain hnil | ⟨init, d, hd, heq⟩ := trimmed_end (p := fun c => !isNameChar c) (c :: rest)
    · exact Or.inl hnil
    · right
      cases init with
      | nil =>
        rw [heq]
        exact ⟨d, [], by simpa using hd, rfl⟩
      | cons e init =>
        have hprefix : e :: init ++ [d] <+: c :: rest := heq ▸ List.rdropWhile_prefix _ _
        obtain ⟨rfl, -⟩ := List.cons_prefix_cons.mp hprefix
        exact ⟨e, init ++ [d], hc, heq⟩

/-- The slug of a name is made of the stripped name, or is the fallback. -/
theorem slugify_eq (s : Text) :
    slugify s = if stripName s = [] then "model".toList else slugChars false (stripName s) := by
  unfold slugify
  rw [trimmed_slugLoop]
  obtain hnil | ⟨c, rest, hc, hcons⟩ := stripName_cases s
  · rw [hnil]
    rfl
  · rw [hcons, if_neg (List.cons_ne_nil c rest), slugChars_cons_of_name hc]
    rfl

/-- A character that a slug can have: one that is kept, in lower case, or a dash. -/
def SlugChar (c : Char) : Prop := (isNameChar c = true ∧ c.toLower = c) ∨ c = '-'

/-- The loop makes characters of a slug. -/
theorem slugChar_of_mem {s : Text} {lastDash : Bool} : ∀ c ∈ slugChars lastDash s, SlugChar c := by
  induction s generalizing lastDash with
  | nil => exact fun c hc => nomatch hc
  | cons ch rest ih =>
    cases hch : isNameChar ch with
    | true =>
      obtain ⟨hname, hlower, -⟩ := isNameChar_toLower hch
      rw [slugChars_cons_of_name hch]
      exact List.forall_mem_cons.mpr ⟨Or.inl ⟨hname, hlower⟩, ih⟩
    | false =>
      obtain ⟨flag, hcons | ⟨-, hcons⟩⟩ := slugChars_cons_of_not hch lastDash
      · rw [hcons]
        exact List.forall_mem_cons.mpr ⟨Or.inr rfl, ih⟩
      · rw [hcons]
        exact ih

/-- It leaves them as they are. -/
theorem slugChars_of_slugChar {s : Text} (hs : ∀ c ∈ s, SlugChar c) (lastDash : Bool) :
    slugChars lastDash s = s := by
  induction s generalizing lastDash with
  | nil => rfl
  | cons c rest ih =>
    have hrest := ih fun d hd => hs d (List.mem_cons_of_mem c hd)
    obtain ⟨hname, hlower⟩ | rfl := hs c List.mem_cons_self
    · rw [slugChars_cons_of_name hname, hlower, hrest]
    · show '-' :: slugChars false rest = _
      rw [hrest]

/-- What is made of a stripped name is stripped. -/
theorem stripName_slugChars (s : Text) :
    stripName (slugChars false (stripName s)) = slugChars false (stripName s) := by
  have hfront : (slugChars false (stripName s)).dropWhile (fun c => !isNameChar c) =
      slugChars false (stripName s) := by
    obtain hnil | ⟨c, rest, hc, hcons⟩ := stripName_cases s
    · rw [hnil]
      rfl
    · rw [hcons, slugChars_cons_of_name hc]
      exact List.dropWhile_cons_of_neg (by simp [(isNameChar_toLower hc).1])
  unfold stripName at hfront ⊢
  unfold trimMatches at hfront ⊢
  rw [hfront]
  obtain hnil | ⟨init, c, hc, heq⟩ := trimmed_end (p := fun c => !isNameChar c)
    (s.dropWhile fun c => !isNameChar c)
  · rw [hnil]
    rfl
  · rw [Bool.not_eq_false'] at hc
    obtain ⟨flag, hlast⟩ := slugChars_append init [c] false
    rw [heq, hlast, slugChars_cons_of_name hc]
    exact List.rdropWhile_concat_neg _ _ _ (by simp [(isNameChar_toLower hc).1])

/-- **A slug is its own slug.** -/
theorem slugify_idem (s : Text) : slugify (slugify s) = slugify s := by
  rw [slugify_eq s]
  split
  · decide
  · rename_i hne
    rw [slugify_eq, stripName_slugChars, slugChars_of_slugChar slugChar_of_mem]
    refine if_neg fun hnil => ?_
    obtain h | ⟨c, rest, hc, hcons⟩ := stripName_cases s
    · exact hne h
    · rw [hcons, slugChars_cons_of_name hc] at hnil
      cases hnil

/-! ## Normal components -/

/-- **A normal component of a path**, under the rules of Unix and of Windows. -/
structure NormalComponent (s : Text) : Prop where
  nonempty : s ≠ []
  noSeparator : ∀ c ∈ s, isWinSep c = false
  notDot : s ≠ ".".toList
  notParent : s ≠ "..".toList
  noControl : ∀ c ∈ s, isControl c = false

/-- A slug has no separator and no control character, nor a colon. -/
theorem SlugChar.plain {c : Char} (h : SlugChar c) :
    isWinSep c = false ∧ isControl c = false ∧ c ≠ ':' := by
  have hascii : c.toNat < 128 := by
    obtain ⟨hname, -⟩ | rfl := h
    · exact isNameChar_ascii hname
    · decide
  have hall : ∀ c : Char, c.toNat < 128 → isNameChar c = true ∨ c = '-' →
      isWinSep c = false ∧ isControl c = false ∧ c ≠ ':' :=
    forall_char_lt (by decide +kernel)
  exact hall c hascii (h.imp_left And.left)

/-- Every slug is made of them, and there is one. -/
theorem slugify_chars (s : Text) : slugify s ≠ [] ∧ ∀ c ∈ slugify s, SlugChar c := by
  rw [slugify_eq]
  split
  · have hmodel : ("model".toList.all fun c => isNameChar c && c.toLower == c) = true := by decide
    refine ⟨by decide, fun c hc => Or.inl ?_⟩
    have hchar := List.all_eq_true.mp hmodel c hc
    rwa [Bool.and_eq_true, beq_iff_eq] at hchar
  · rename_i hne
    refine ⟨fun hnil => ?_, slugChar_of_mem⟩
    obtain h | ⟨c, rest, hc, hcons⟩ := stripName_cases s
    · exact hne h
    · rw [hcons, slugChars_cons_of_name hc] at hnil
      cases hnil

/-- A character in front leaves its mark. -/
theorem slugChars_eq_nil {s : Text} (h : slugChars false s = []) : s = [] := by
  cases s with
  | nil => rfl
  | cons c rest =>
    cases hc : isNameChar c with
    | true =>
      rw [slugChars_cons_of_name hc] at h
      cases h
    | false =>
      obtain ⟨flag, hcons | ⟨hflag, -⟩⟩ := slugChars_cons_of_not hc false
      · rw [hcons] at h
        cases h
      · cases hflag

/-- A dot comes from a dot. -/
theorem slugChars_eq_dot_cons {s t : Text} (h : slugChars false s = '.' :: t) :
    ∃ rest, s = '.' :: rest ∧ slugChars false rest = t := by
  cases s with
  | nil => cases h
  | cons c rest =>
    cases hc : isNameChar c with
    | true =>
      rw [slugChars_cons_of_name hc] at h
      obtain ⟨hdot, hrest⟩ := List.cons.inj h
      rw [(isNameChar_toLower hc).2.2 hdot]
      exact ⟨rest, rfl, hrest⟩
    | false =>
      obtain ⟨flag, hcons | ⟨hflag, -⟩⟩ := slugChars_cons_of_not hc false
      · rw [hcons] at h
        cases h
      · cases hflag

/-- **The slug is a name of dots** exactly if the stripped name is. -/
theorem slugify_eq_dots_iff (s : Text) :
    (slugify s = ".".toList ↔ stripName s = ".".toList) ∧
      (slugify s = "..".toList ↔ stripName s = "..".toList) := by
  rw [slugify_eq]
  split
  · rename_i hnil
    rw [hnil]
    exact ⟨iff_of_false (by decide) (by decide), iff_of_false (by decide) (by decide)⟩
  · refine ⟨⟨fun h => ?_, fun h => by rw [h]; rfl⟩, ⟨fun h => ?_, fun h => by rw [h]; rfl⟩⟩
    · obtain ⟨rest, hs, hrest⟩ := slugChars_eq_dot_cons h
      rw [hs, slugChars_eq_nil hrest]
      rfl
    · obtain ⟨rest, hs, hrest⟩ := slugChars_eq_dot_cons h
      obtain ⟨last, rfl, hlast⟩ := slugChars_eq_dot_cons hrest
      rw [hs, slugChars_eq_nil hlast]
      rfl

/-! ## The directory of a slug -/

/-- Where the installed models are, under the root of the store, under which each model has
a directory of its own. -/
def installsDir (join : Text → Text → Text) (root : Text) : Text := join root "installs".toList

/-- Where the current version of a model is installed: a directory named `current` in that
of the model's slug. -/
def installDir (join : Text → Text → Text) (root modelSlug : Text) : Text :=
  join (join (installsDir join root) modelSlug) "current".toList

/-- The directories of a slug are strictly below that of the installed models, under the
rules of Unix and of Windows. -/
def SlugBelow (root modelSlug : Text) : Prop :=
  ((unixPath (joinDest (installsDir joinDest root) modelSlug)).StrictlyBelow
      (unixPath (installsDir joinDest root)) ∧
    (unixPath (installDir joinDest root modelSlug)).StrictlyBelow
      (unixPath (installsDir joinDest root))) ∧
  (winPath (winJoin (installsDir winJoin root) modelSlug)).StrictlyBelow
      (winPath (installsDir winJoin root)) ∧
    (winPath (installDir winJoin root modelSlug)).StrictlyBelow
      (winPath (installsDir winJoin root))

/-- Two separators and nothing else, which are no directory on Windows: joining a component
to it would start a server name there. -/
def BareSeparators (root : Text) : Prop := ∃ a b, isWinSep a = true ∧ isWinSep b = true ∧
  root = [a, b]

/-- A normal component without a colon is a path that is accepted, with a name. -/
theorem NormalComponent.accepted {s : Text} (h : NormalComponent s) (hcolon : ':' ∉ s) :
    AcceptedPath s ∧ HasName s := by
  have hpieces : pieces isWinSep s = [s] := pieces_of_forall h.noSeparator
  refine ⟨⟨h.nonempty, fun c hc => h.noSeparator c (List.mem_of_mem_head? hc), ?_, ?_⟩, s, ?_, ?_⟩
  · rintro ⟨hsecond, -⟩
    exact hcolon (List.mem_of_getElem? hsecond)
  · rw [hpieces, List.mem_singleton]
    exact Ne.symm h.notParent
  · rw [hpieces]
    exact List.mem_cons_self
  · unfold meaningful
    rw [decide_eq_true h.nonempty, decide_eq_true h.notDot]
    rfl

/-- A root with a separator in its midst is no mere beginning of a share. -/
theorem not_completesUnc_of_sep {p q path : Text} {sep : Char} (hsep : isWinSep sep = true)
    (hp : 2 ≤ p.length) (hq : q ≠ []) : ¬ CompletesUnc (p ++ sep :: q) path := by
  obtain ⟨x, y, r, rfl⟩ : ∃ x y r, p = x :: y :: r := by
    match p, hp with
    | x :: y :: r, _ => exact ⟨x, y, r, rfl⟩
  rintro ⟨-, a, b, -, -, ⟨hroot, -⟩ | ⟨server, hne, hserver, hroot | ⟨end', -, hroot⟩⟩⟩
  · obtain ⟨-, htail⟩ := List.cons.inj hroot
    obtain ⟨-, htail⟩ := List.cons.inj htail
    exact List.append_ne_nil_of_right_ne_nil r (List.cons_ne_nil sep q) htail
  · obtain ⟨-, htail⟩ := List.cons.inj hroot
    obtain ⟨-, htail⟩ := List.cons.inj htail
    have hno := hserver sep (htail ▸ List.mem_append_right r List.mem_cons_self)
    rw [hsep] at hno
    cases hno
  · obtain ⟨-, htail⟩ := List.cons.inj hroot
    obtain ⟨-, htail⟩ := List.cons.inj htail
    -- the separator is not the last character
    obtain ⟨q', c, rfl⟩ : ∃ q' c, q = q' ++ [c] := ⟨_, _, (List.dropLast_append_getLast hq).symm⟩
    have hall : r ++ sep :: (q' ++ [c]) = (r ++ sep :: q') ++ [c] := by simp
    have hsame := (List.append_inj' (hall.symm.trans htail) rfl).1
    have hno := hserver sep (hsame ▸ List.mem_append_right r List.mem_cons_self)
    rw [hsep] at hno
    cases hno

/-- A verbatim prefix stays in front. -/
theorem isVerbatim_winJoin {root path : Text} (h : isVerbatim root = true) :
    isVerbatim (winJoin root path) = true := by
  have htake : ∀ n, 4 ≤ n → "\\\\?\\".toList <+: root.take n := by
    intro n hn
    refine List.prefix_take_iff.mpr ⟨List.isPrefixOf_iff_prefix.mp h, ?_⟩
    exact hn
  have hprefix : "\\\\?\\".toList <+: verbatimPrefix root := by
    unfold verbatimPrefix
    dsimp only
    split
    · exact htake _ (by omega)
    · split
      · exact htake _ (by omega)
      · exact htake _ (by omega)
  unfold winJoin
  rw [if_pos h]
  unfold verbatimJoin
  refine List.isPrefixOf_iff_prefix.mpr ?_
  exact hprefix.trans (List.prefix_append _ _)

/-- The directory of the installed models, unless the root is verbatim, is the root with
that name behind it. -/
theorem installsDir_eq {root : Text} (h : isVerbatim root = false) :
    (∃ front sep, isWinSep sep = true ∧ root = front ++ [sep] ∧
        installsDir winJoin root = front ++ sep :: "installs".toList) ∨
      ((root = [] ∨ isBareDrive root = true) ∧
        installsDir winJoin root = root ++ "installs".toList) ∨
      (root ≠ [] ∧ root.getLast?.any isWinSep = false ∧
        installsDir winJoin root = root ++ '\\' :: "installs".toList) := by
  unfold installsDir winJoin
  rw [h, if_neg Bool.false_ne_true]
  split
  · rename_i hcases
    obtain hnil | hlast | hdrive := hcases
    · exact Or.inr (Or.inl ⟨Or.inl hnil, rfl⟩)
    · obtain ⟨sep, hsep, hwin⟩ := (Option.any_eq_true _ _).mp hlast
      have hroot := List.dropLast_append_getLast? sep hsep
      refine Or.inl ⟨root.dropLast, sep, hwin, hroot.symm, ?_⟩
      conv_lhs => rw [← hroot]
      rw [List.append_assoc]
      rfl
    · exact Or.inr (Or.inl ⟨Or.inr hdrive, rfl⟩)
  · rename_i hnone
    obtain ⟨hne, hlast, -⟩ := by simpa only [not_or] using hnone
    exact Or.inr (Or.inr ⟨hne, Bool.eq_false_iff.mpr hlast, rfl⟩)

/-- A root that begins with something else is no mere beginning of a share. -/
theorem not_completesUnc_of_head {a : Char} {r path : Text} (ha : isWinSep a = false) :
    ¬ CompletesUnc (a :: r) path := by
  rintro ⟨-, b, c, hb, -, ⟨hroot, -⟩ | ⟨server, -, -, hroot | ⟨sep, -, hroot⟩⟩⟩ <;>
  · rw [← (List.cons.inj hroot).1, ha] at hb
    cases hb

/-- What begins with two characters is verbatim only if a question mark is the third. -/
theorem isVerbatim_of_third {a b : Char} {r : Text} (h : r.head? ≠ some '?') :
    isVerbatim (a :: b :: r) = false := by
  refine Bool.eq_false_iff.mpr fun hverbatim => h ?_
  obtain ⟨rest, hrest⟩ := List.isPrefixOf_iff_prefix.mp hverbatim
  obtain ⟨-, htail⟩ := List.cons.inj hrest
  rw [← (List.cons.inj htail).2]
  rfl

/-- **Joining a component to the directory of the installed models** completes a share only
if the root is two separators. -/
theorem completesUnc_installsDir {root path : Text}
    (h : CompletesUnc (installsDir winJoin root) path) : BareSeparators root := by
  have hverbatim : isVerbatim root = false := by
    refine Bool.eq_false_iff.mpr fun hv => ?_
    have hno := h.1
    unfold installsDir at hno
    rw [isVerbatim_winJoin hv] at hno
    cases hno
  obtain ⟨front, sep, hsep, hroot, heq⟩ | ⟨hroot, heq⟩ | ⟨hne, hlast, heq⟩ :=
    installsDir_eq hverbatim
  · rw [heq] at h
    match front with
    | [] =>
      -- one separator, and no second one behind it
      obtain ⟨-, a, b, -, hb, ⟨hlist, -⟩ | ⟨server, -, -, hlist | ⟨last, -, hlist⟩⟩⟩ := h <;>
      · have hsecond := (List.cons.inj (List.cons.inj hlist).2).1
        rw [← hsecond] at hb
        cases hb
    | [a] =>
      refine ⟨a, sep, ?_, hsep, hroot⟩
      by_contra ha
      exact not_completesUnc_of_head (Bool.eq_false_iff.mpr ha) h
    | a :: b :: front =>
      exact absurd h (not_completesUnc_of_sep hsep (by simp) (List.cons_ne_nil _ _))
  · rw [heq] at h
    obtain rfl | hdrive := hroot
    · exact absurd h (not_completesUnc_of_head rfl)
    · cases root with
      | nil => cases hdrive
      | cons a r =>
        refine absurd h (not_completesUnc_of_head ?_)
        refine Bool.eq_false_iff.mpr fun ha => ?_
        rw [isBareDrive_of_sep ha] at hdrive
        cases hdrive
  · rw [heq] at h
    match root, hne, hlast with
    | [a], _, hlast => exact absurd h (not_completesUnc_of_head hlast)
    | a :: b :: r, _, _ =>
      exact absurd h (not_completesUnc_of_sep rfl (by simp) (List.cons_ne_nil _ _))

/-- The directory of the installed models ends in its name. -/
theorem installsDir_ends {root : Text} (h : isVerbatim root = false) :
    ∃ front, installsDir winJoin root = front ++ "installs".toList := by
  obtain ⟨front, sep, -, -, heq⟩ | ⟨-, heq⟩ | ⟨-, -, heq⟩ := installsDir_eq h
  · exact ⟨front ++ [sep], by rw [heq, List.append_assoc]; rfl⟩
  · exact ⟨root, heq⟩
  · exact ⟨root ++ ['\\'], by rw [heq, List.append_assoc]; rfl⟩

/-- The directory of a slug is never the mere beginning of a share. -/
theorem not_completesUnc_slugDir {root modelSlug path : Text} (hslug : modelSlug ≠ []) :
    ¬ CompletesUnc (winJoin (installsDir winJoin root) modelSlug) path := by
  intro h
  have hverbatim : isVerbatim (installsDir winJoin root) = false := by
    refine Bool.eq_false_iff.mpr fun hv => ?_
    have hno := h.1
    rw [isVerbatim_winJoin hv] at hno
    cases hno
  have hroot : isVerbatim root = false := by
    refine Bool.eq_false_iff.mpr fun hv => ?_
    rw [installsDir, isVerbatim_winJoin hv] at hverbatim
    cases hverbatim
  obtain ⟨front, heq⟩ := installsDir_ends hroot
  have hne : front ++ "installs".toList ≠ [] :=
    List.append_ne_nil_of_right_ne_nil front (by decide)
  have hlast : (front ++ "installs".toList).getLast?.any isWinSep = false := by
    rw [getLast?_append_ne (by decide)]
    rfl
  have hdrive : isBareDrive (front ++ "installs".toList) = false := by
    unfold isBareDrive
    have hlength : (front ++ "installs".toList).length ≠ 2 := by
      rw [List.length_append]
      show front.length + 8 ≠ 2
      omega
    rw [decide_eq_false hlength, Bool.false_and]
  rw [heq] at hverbatim h
  rw [winJoin_of_not_sep hverbatim hne hlast hdrive] at h
  refine not_completesUnc_of_sep rfl ?_ hslug h
  rw [List.length_append]
  show 2 ≤ front.length + 8
  omega

/-- **The directories of a normal component** are below that of the installed models, if
the root is not two bare separators. -/
theorem slugBelow_iff {modelSlug : Text} (h : NormalComponent modelSlug)
    (hcolon : ':' ∉ modelSlug) (root : Text) :
    SlugBelow root modelSlug ↔ ¬ BareSeparators root := by
  obtain ⟨haccepted, hname⟩ := h.accepted hcolon
  have hcurrent : AcceptedPath "current".toList := accepted_of_validate (by decide)
  have hunix := (unix_below_iff haccepted (installsDir joinDest root)).mpr hname.unix
  have hunix' := (unix_below_iff hcurrent (joinDest (installsDir joinDest root) modelSlug)).mpr
    (by decide)
  constructor
  · rintro ⟨-, hwin, -⟩ ⟨a, b, ha, hb, rfl⟩
    obtain ⟨-, hnot⟩ := (win_below_iff haccepted _).mp hwin
    have hdir : installsDir winJoin [a, b] = a :: b :: "installs".toList :=
      winJoin_of_sep (isVerbatim_of_third (by decide)) hb
    rw [hdir] at hnot
    -- two separators, and the name becomes a server
    exact hnot ⟨isVerbatim_of_third (by decide), a, b, ha, hb,
      Or.inr ⟨"installs".toList, by decide, forall_mem_of_all (by decide), Or.inl rfl⟩⟩
  · intro hbare
    have hwin := (win_below_iff haccepted (installsDir winJoin root)).mpr
      ⟨hname, fun hcompletes => hbare (completesUnc_installsDir hcompletes)⟩
    have hwin' := (win_below_iff hcurrent (winJoin (installsDir winJoin root) modelSlug)).mpr
      ⟨by decide, not_completesUnc_slugDir h.nonempty⟩
    exact ⟨⟨hunix, hunix'.trans hunix⟩, hwin, hwin'.trans hwin⟩

/-- **The slug of a name is a normal component, its own slug, and a directory strictly below
that of the installed models** exactly if the name, without what is around its first and its
last character that a slug keeps, is not `.` or `..`; and, under the rules of Windows, the
root of the store is not two bare separators. -/
theorem slugify_safe_iff (name root : Text) :
    (NormalComponent (slugify name) ∧ slugify (slugify name) = slugify name ∧
      SlugBelow root (slugify name)) ↔
    (stripName name ≠ ".".toList ∧ stripName name ≠ "..".toList) ∧ ¬ BareSeparators root := by
  obtain ⟨hne, hchars⟩ := slugify_chars name
  obtain ⟨hdot, hparent⟩ := slugify_eq_dots_iff name
  have hcolon : ':' ∉ slugify name := fun hmem => (hchars ':' hmem).plain.2.2 rfl
  constructor
  · rintro ⟨hnormal, -, hbelow⟩
    exact ⟨⟨fun h => hnormal.notDot (hdot.mpr h), fun h => hnormal.notParent (hparent.mpr h)⟩,
      (slugBelow_iff hnormal hcolon root).mp hbelow⟩
  · rintro ⟨⟨hnotDot, hnotParent⟩, hbare⟩
    have hnormal : NormalComponent (slugify name) :=
      { nonempty := hne
        noSeparator := fun c hc => (hchars c hc).plain.1
        notDot := fun h => hnotDot (hdot.mp h)
        notParent := fun h => hnotParent (hparent.mp h)
        noControl := fun c hc => (hchars c hc).plain.2.1 }
    exact ⟨hnormal, slugify_idem name, (slugBelow_iff hnormal hcolon root).mpr hbare⟩

/-- **The slug of two dots is two dots**, and the directory that is built from it is not
below that of the installed models. -/
theorem dots_slug_climbs :
    slugify "..".toList = "..".toList ∧ ¬ NormalComponent (slugify "..".toList) ∧
      installDir joinDest "/data".toList (slugify "..".toList) =
        "/data/installs/../current".toList ∧
      unixPath (installDir joinDest "/data".toList (slugify "..".toList)) =
        unixPath "/data/current".toList ∧
      ¬ (unixPath (installDir joinDest "/data".toList (slugify "..".toList))).StrictlyBelow
        (unixPath (installsDir joinDest "/data".toList)) := by
  have hslug : slugify "..".toList = "..".toList := by decide
  refine ⟨hslug, fun h => h.notParent hslug, by decide, by decide +kernel, ?_⟩
  rintro ⟨-, rest, -, -, hnames⟩
  have hleft : (unixPath (installDir joinDest "/data".toList (slugify "..".toList))).names =
      ["data".toList, "current".toList] := by decide +kernel
  have hright : (unixPath (installsDir joinDest "/data".toList)).names =
      ["data".toList, "installs".toList] := by decide +kernel
  rw [hleft, hright] at hnames
  exact absurd (List.cons.inj (List.cons.inj hnames).2).1 (by decide)

end Atlas
