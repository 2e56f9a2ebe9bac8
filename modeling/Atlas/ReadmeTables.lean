import Atlas.ReadmeCode

/-!
# The HTML of a model card as Markdown

Tags are rewritten to Markdown, links by recursion into what they hold, which is capped; tables
become pipe tables. What is rewritten is every text: `rewriteTags_returns`.

Tables are different. The cells of a row may be left unclosed: a cell ends where the next one
opens, or where the row ends, and the scan then goes on one byte further at least. If the opening
tag of the last cell is the end of the row, that is past the row, and the next slice is out of
range. `DanglingColumn` says that some row has such a cell, and `htmlTablesToMarkdown_settles`
that exactly then the pass does not return.
-/

namespace Atlas

namespace Readme

open Text Run

/-! ## Tags -/

/-- Tags that become a line break, since a block begins or ends there. -/
def STRUCTURAL_TAGS : List Text :=
  ["p".toList, "div".toList, "details".toList, "summary".toList, "center".toList,
    "section".toList, "article".toList, "main".toList, "header".toList, "footer".toList,
    "figure".toList, "figcaption".toList, "picture".toList, "source".toList, "video".toList,
    "audio".toList, "table".toList, "thead".toList, "tbody".toList, "tfoot".toList,
    "tr".toList, "th".toList, "td".toList, "ul".toList, "ol".toList, "blockquote".toList,
    "nav".toList, "aside".toList, "form".toList, "button".toList, "colgroup".toList,
    "col".toList, "caption".toList, "dl".toList, "dt".toList, "dd".toList]

/-- Tags that are dropped without one, and whose content stays. -/
def INLINE_STRIP_TAGS : List Text :=
  ["span".toList, "font".toList, "small".toList, "big".toList, "sup".toList, "sub".toList,
    "u".toList, "abbr".toList, "mark".toList, "ins".toList, "time".toList, "wbr".toList]

/-- Tags whose content is dropped with them, being no text to show. -/
def droppedTags : List Text :=
  ["script".toList, "style".toList, "svg".toList, "iframe".toList, "noscript".toList]

/-- The tags of headings, from the first level to the sixth. -/
def headingTags : List Text :=
  ["h1".toList, "h2".toList, "h3".toList, "h4".toList, "h5".toList, "h6".toList]

/-- Nesting-driven recursion is capped, so that a hostile card cannot exhaust the stack. -/
def MAX_NEST : ℕ := 24

/-- A number of 32 bits, or nothing where the digits name a larger one. -/
def parseU32 (s : Text) : Option ℕ := (parseU64 s).filter (· < 2 ^ 32)

/-- The width of an image, before a URL fragment, under which a width given in HTML survives
the way through Markdown. -/
def widthMark : Text := "#noema-w=".toList

/-- An image in Markdown, with its width as a fragment of the address. -/
def imgToMarkdown (tagSrc : Text) : Run (Option Text) := do
  match ← attr tagSrc "src".toList with
  | none => pure none
  | some src =>
    if src = [] then pure none
    else
      let alt := ((← attr tagSrc "alt".toList).getD []).map fun c =>
        if c = '[' ∨ c = ']' then ' ' else c
      let width := (← attr tagSrc "width".toList).bind fun w =>
        parseU32 (trim (trimEndMatches "px".toList (trim w)))
      pure (some ("![".toList ++ alt ++ "](".toList ++ src ++
        (width.elim [] fun w => widthMark ++ decimal w) ++ [')']))

/-- A link in Markdown: an address without a text stands for itself, and a text without an
address is no link. -/
def linkToMarkdown (href inner : Text) : Text :=
  if href = [] then inner
  else if inner = [] then ['['] ++ href ++ "](".toList ++ href ++ [')']
  else ['['] ++ inner ++ "](".toList ++ href ++ [')']

/-- The start of a heading in Markdown, or its end: as many number signs as the name of the
tag says, and blank lines around. -/
def headingToMarkdown (name : Text) (closing : Bool) : Run Text :=
  if closing then pure "\n\n".toList
  else do
    let level ← sliceFrom name 1
    pure ("\n\n".toList ++ List.replicate ((parseU64 level).getD 1) '#' ++ [' '])

/-- What replaces a tag by its name alone. Unknown tags stay verbatim. -/
def tagToMarkdown (name : Text) (closing : Bool) (tagSrc : Text) : Text :=
  if name = "br".toList then ['\n']
  else if name = "hr".toList then "\n\n---\n\n".toList
  else if name = "a".toList then []
  else if name ∈ ["b".toList, "strong".toList] then "**".toList
  else if name ∈ ["i".toList, "em".toList] then "*".toList
  else if name ∈ ["s".toList, "del".toList, "strike".toList] then "~~".toList
  else if name = "li".toList then if closing then ['\n'] else "\n- ".toList
  else if name ∈ droppedTags then []
  else if name ∈ ["code".toList, "pre".toList, "kbd".toList, "samp".toList, "tt".toList] then []
  else if name ∈ STRUCTURAL_TAGS then ['\n']
  else if name ∈ INLINE_STRIP_TAGS then []
  else tagSrc

/-- What replaces the tag that ends at an offset, and where to go on. `deeper` rewrites what a link
holds, if the nesting is not too deep. -/
def rewriteTag (deeper : Option (Text → Run Text)) (s name : Text) (closing : Bool)
    (tagSrc : Text) (e : ℕ) : Run (Text × ℕ) :=
  if name = "img".toList ∧ closing = false then do
    let md ← imgToMarkdown tagSrc
    pure (md.getD [], e)
  else if name ∈ headingTags then do
    let md ← headingToMarkdown name closing
    pure (md, e)
  else if name = "a".toList ∧ closing = false then
    match deeper with
    | none => pure ([], e)
    | some rewrite => do
      let href := (← attr tagSrc "href".toList).getD []
      match ← findMatchingClose s e "a".toList with
      | some (cs, ce) =>
        let body ← slice s e cs
        let inner ← rewrite body
        pure (linkToMarkdown href ([' '].intercalate (splitWhitespace inner)), ce)
      | none => pure ([], e)
  else if name ∈ droppedTags ∧ closing = false then do
    match ← findMatchingClose s e name with
    | some (_, ce) => pure ([], ce)
    | none => pure ([], utf8Len s)
  else pure (tagToMarkdown name closing tagSrc, e)

/-- One turn of `rewriteTags`: the offset, and what is rewritten; what is inside a link is
rewritten by the next level, if there is one left. -/
def rewriteTagsTurn (deeper : Option (Text → Run Text)) (s : Text) :
    ℕ × Text → Run (Turn (ℕ × Text) Text)
  | (i, out) => do
    match ← findFrom s i ['<'] with
    | none =>
      let rest ← sliceFrom s i
      pure (.done (out ++ rest))
    | some lt =>
      let plain ← slice s i lt
      match ← tagName s lt with
      | none => pure (.more (lt + 1, out ++ plain ++ ['<']))
      | some (name, closing, _) =>
        match tagEnd s lt with
        | none => pure (.more (lt + 1, out ++ plain ++ ['<']))
        | some e =>
          let tagSrc ← slice s lt e
          let (md, next) ← rewriteTag deeper s name closing tagSrc e
          pure (.more (next, out ++ plain ++ md))

/-- Rewrite tags, with links nested so many levels deeper at most; the innermost level has
no other one to hand its links to. -/
def rewriteTagsNested : ℕ → Text → Run Text
  | 0, s => loop (rewriteTagsTurn none s) (utf8Len s + 1) (0, [])
  | nest + 1, s =>
    loop (rewriteTagsTurn (some (rewriteTagsNested nest)) s) (utf8Len s + 1) (0, [])

/-- Rewrite headings, links, emphasis and images to Markdown, and drop structure, as deep as
links may be nested, in one pass from left to right. -/
def rewriteTags (s : Text) : Run Text := rewriteTagsNested MAX_NEST s

theorem imgToMarkdown_returns (tagSrc : Text) :
    Returns (imgToMarkdown tagSrc) fun _ => True := by
  refine (attr_returns rfl tagSrc).bind ?_
  rintro (_ | src) -
  · exact returns_pure trivial
  · dsimp only
    split
    · exact returns_pure trivial
    · exact (attr_returns rfl tagSrc).bind fun _ _ =>
        (attr_returns rfl tagSrc).bind fun _ _ => returns_pure trivial

theorem headingToMarkdown_returns {name : Text} (h : name ∈ headingTags) (closing : Bool) :
    Returns (headingToMarkdown name closing) fun _ => True := by
  have hlevel : ∀ name ∈ headingTags, utf8Len (name.take 1) = 1 := by decide
  have hbound : Boundary name 1 :=
    ⟨name.drop 1, name.take 1, (List.take_append_drop 1 name).symm, hlevel name h⟩
  unfold headingToMarkdown
  split
  · exact returns_pure trivial
  · exact (sliceFrom_returns hbound).bind fun _ _ => returns_pure trivial

variable {s : Text} {i e : ℕ}

/-- **A tag is rewritten, and the rest from there on**, if what links hold is. -/
theorem rewriteTag_returns {deeper : Option (Text → Run Text)}
    (hdeeper : ∀ rewrite ∈ deeper, ∀ t, Returns (rewrite t) fun _ => True) (he : Boundary s e)
    (name : Text) (closing : Bool) (tagSrc : Text) :
    Returns (rewriteTag deeper s name closing tagSrc e) fun md => e ≤ md.2 ∧ Boundary s md.2 := by
  unfold rewriteTag
  split
  · exact (imgToMarkdown_returns tagSrc).bind fun _ _ => returns_pure ⟨le_rfl, he⟩
  · split
    · rename_i hheading
      exact (headingToMarkdown_returns hheading closing).bind fun _ _ =>
        returns_pure ⟨le_rfl, he⟩
    · split
      · split
        · exact returns_pure ⟨le_rfl, he⟩
        · rename_i rewrite
          refine (attr_returns rfl tagSrc).bind fun href _ => ?_
          refine (findMatchingClose_returns _ he).bind ?_
          rintro (_ | ⟨cs, ce⟩) hclose
          · exact returns_pure ⟨le_rfl, he⟩
          · obtain ⟨hle, hlt, hcs, hce⟩ := hclose _ rfl
            refine (slice_returns he hcs.boundary hle).bind fun body _ => ?_
            exact (hdeeper rewrite rfl body).bind fun inner _ =>
              returns_pure ⟨hle.trans hlt.le, hce⟩
      · split
        · refine (findMatchingClose_returns _ he).bind ?_
          rintro (_ | ⟨cs, ce⟩) hclose
          · exact returns_pure ⟨he.le_len, boundary_len s⟩
          · obtain ⟨hle, hlt, hcs, hce⟩ := hclose _ rfl
            exact returns_pure ⟨hle.trans hlt.le, hce⟩
        · exact returns_pure ⟨le_rfl, he⟩

theorem rewriteTagsLoop_returns {deeper : Option (Text → Run Text)}
    (hdeeper : ∀ rewrite ∈ deeper, ∀ t, Returns (rewrite t) fun _ => True) (s : Text) :
    Returns (loop (rewriteTagsTurn deeper s) (utf8Len s + 1) (0, [])) fun _ => True := by
  refine loop_returns (fun state => Boundary s state.1)
    (fun state => utf8Len s - state.1) ?_ (boundary_zero s) (Nat.lt_succ_self _)
  rintro ⟨i, out⟩ hi
  refine (findFrom_returns hi).bind ?_
  rintro (_ | lt) hfound
  · exact (sliceFrom_returns hi).bind fun _ _ => returns_pure trivial
  obtain ⟨hle, hlt⟩ : i ≤ lt ∧ LtAt s lt := hfound lt rfl
  have hlen := hlt.lt_len
  have hmore : ∀ {k : ℕ} (out : Text), lt < k → Boundary s k →
      Returns (pure (Turn.more (k, out))) (Turn.Sat
        (fun state : ℕ × Text => Boundary s state.1 ∧ utf8Len s - state.1 < utf8Len s - i)
        fun _ : Text => True) := by
    intro k out hk hbound
    exact returns_pure ⟨hbound, by dsimp only; omega⟩
  refine (slice_returns hi hlt.boundary hle).bind fun plain _ => ?_
  refine (tagName_returns s lt).bind ?_
  rintro (_ | ⟨name, closing, nameEnd⟩) -
  · exact hmore _ (Nat.lt_succ_self lt) hlt.boundary_succ
  · dsimp only
    split
    · exact hmore _ (Nat.lt_succ_self lt) hlt.boundary_succ
    · rename_i e hend
      obtain ⟨hle', he⟩ := tagEnd_eq_some hend
      refine (slice_returns hlt.boundary he (by omega)).bind fun tagSrc _ => ?_
      refine (rewriteTag_returns hdeeper he name closing tagSrc).bind ?_
      rintro ⟨md, next⟩ ⟨hnext, hbound⟩
      exact hmore _ (by dsimp only at hnext; omega) hbound

theorem rewriteTagsNested_returns (nest : ℕ) (s : Text) :
    Returns (rewriteTagsNested nest s) fun _ => True := by
  induction nest generalizing s with
  | zero => exact rewriteTagsLoop_returns (by rintro rewrite ⟨⟩) s
  | succ nest ih =>
    refine rewriteTagsLoop_returns ?_ s
    rintro _ ⟨⟩
    exact ih

/-- **The tags of every text are rewritten.** -/
theorem rewriteTags_returns (s : Text) : Returns (rewriteTags s) fun _ => True :=
  rewriteTagsNested_returns MAX_NEST s

/-! ## Cells -/

/-- Runs of whitespace as one space; `lastSpace` says that the last character was one. -/
def flattenSpaces (lastSpace : Bool) : Text → Text
  | [] => []
  | ch :: s =>
    if isWhitespace ch then
      if lastSpace then flattenSpaces true s else ' ' :: flattenSpaces true s
    else ch :: flattenSpaces false s

/-- Flatten the HTML of a cell to one line of inline Markdown. Pipes become a lookalike, and so do
the entities that would be pipes. -/
def sanitizeCell (html : Text) : Run Text := do
  let bar := ['\u00A6']
  let s := ["&#124;".toList, "&#x7c;".toList, "&vert;".toList, "&VerticalLine;".toList].foldl
    (fun s entity => replaceAll entity bar s) html
  let s ← rewriteTags s
  pure (trim (flattenSpaces true (replaceAll ['|'] bar s)))

/-- A cell: what it holds, how many columns it spans, and where its opening tag ends. -/
structure Cell where
  html : Text
  colspan : ℕ
  openEnd : ℕ

/-- The cell that opens first, of the next `td` and the next `th`. -/
def firstCell : Option ℕ → Option ℕ → Option (ℕ × Text)
  | some a, some b => if a < b then some (a, "td".toList) else some (b, "th".toList)
  | none, some b => some (b, "th".toList)
  | some a, none => some (a, "td".toList)
  | none, none => none

/-- Where a cell ends: where it is closed, or the next one opens, or at the end of the row. -/
def cellEnd (row : Text) (close nextTd nextTh : Option ℕ) : ℕ :=
  let nextOpen :=
    match nextTd, nextTh with
    | some a, some b => some (min a b)
    | a, b => a.or b
  ([close, nextOpen].filterMap id).min?.getD (utf8Len row)

/-- The next cell of a row from an offset on, and where to go on after it. -/
def nextCell (row : Text) (i : ℕ) : Run (Option (Cell × ℕ)) := do
  let td ← findOpenTag row i "td".toList
  let th ← findOpenTag row i "th".toList
  match firstCell td th with
  | none => pure none
  | some (lt, tag) =>
    match tagEnd row lt with
    | none => pure none
    | some openEnd =>
      let tagSrc ← slice row lt openEnd
      let colspan := (((← attr tagSrc "colspan".toList).bind fun v => parseU64 (trim v)).filter
        fun n => 1 ≤ n ∧ n ≤ 32).getD 1
      let close := (← findMatchingClose row openEnd tag).map (·.1)
      let nextTd ← findOpenTag row openEnd "td".toList
      let nextTh ← findOpenTag row openEnd "th".toList
      let e := cellEnd row close nextTd nextTh
      let html ← slice row openEnd e
      pure (some (⟨html, colspan, openEnd⟩, max e (openEnd + 1)))

/-- One turn of `tableCells`: the next cell of the row, with the span it declares, or the end. -/
def tableCellsTurn (row : Text) :
    ℕ × List (Text × ℕ) → Run (Turn (ℕ × List (Text × ℕ)) (List (Text × ℕ)))
  | (i, cells) => do
    match ← nextCell row i with
    | none => pure (.done cells)
    | some (cell, next) => pure (.more (next, cells ++ [(cell.html, cell.colspan)]))

/-- The cells of a row, each with the number of columns that it spans. -/
def tableCells (row : Text) : Run (List (Text × ℕ)) :=
  loop (tableCellsTurn row) (utf8Len row + 2) (0, [])

/-- **A row has a dangling column**: a cell whose opening tag ends the row. -/
def DanglingRow (row : Text) : Prop :=
  ∃ cell, Meets (nextCell row) 0 cell ∧ cell.openEnd = utf8Len row

theorem sanitizeCell_returns (html : Text) : Returns (sanitizeCell html) fun _ => True :=
  (rewriteTags_returns _).bind fun _ _ => returns_pure trivial

theorem firstCell_eq_some {td th : Option ℕ} {lt : ℕ} {tag : Text}
    (h : firstCell td th = some (lt, tag)) : lt ∈ td ∨ lt ∈ th := by
  unfold firstCell at h
  split at h
  · split at h
    · cases h
      exact Or.inl rfl
    · cases h
      exact Or.inr rfl
  · cases h
    exact Or.inr rfl
  · cases h
    exact Or.inl rfl
  · cases h

/-- A cell ends at one of the tags, or at the end of the row. -/
theorem cellEnd_cases (row : Text) (close nextTd nextTh : Option ℕ) :
    cellEnd row close nextTd nextTh ∈ close ∨ cellEnd row close nextTd nextTh ∈ nextTd ∨
      cellEnd row close nextTd nextTh ∈ nextTh ∨
      cellEnd row close nextTd nextTh = utf8Len row := by
  unfold cellEnd
  dsimp only
  generalize hnext : (match nextTd, nextTh with
    | some a, some b => some (min a b)
    | a, b => a.or b : Option ℕ) = nextOpen
  have hopen : ∀ a ∈ nextOpen, a ∈ nextTd ∨ a ∈ nextTh := by
    rintro a rfl
    split at hnext
    · rename_i x y
      obtain hle | hle := Nat.le_total x y
      · rw [Nat.min_eq_left hle] at hnext
        exact Or.inl hnext
      · rw [Nat.min_eq_right hle] at hnext
        exact Or.inr hnext
    · obtain h | ⟨-, h⟩ := Option.or_eq_some_iff.mp hnext
      · exact Or.inl h
      · exact Or.inr h
  cases hmin : ([close, nextOpen].filterMap id).min? with
  | none => exact Or.inr (Or.inr (Or.inr rfl))
  | some e =>
    show e ∈ close ∨ e ∈ nextTd ∨ e ∈ nextTh ∨ e = utf8Len row
    obtain ⟨found, hmem, hfound⟩ := List.mem_filterMap.mp (List.min?_mem hmin)
    have hfound : found = some e := hfound
    obtain rfl | hmem := List.mem_cons.mp hmem
    · exact Or.inl hfound
    · rw [List.mem_singleton.mp hmem] at hfound
      obtain h | h := hopen e hfound
      · exact Or.inr (Or.inl h)
      · exact Or.inr (Or.inr (Or.inl h))

/-- **The scan for cells goes forward**, to a boundary, or past the row if the column dangles. -/
theorem nextCell_returns {row : Text} {i : ℕ} (hi : Boundary row i) :
    Returns (nextCell row i) fun found => ∀ cell ∈ found, i < cell.2 ∧
      (cell.1.openEnd = utf8Len row ∧ cell.2 = utf8Len row + 1 ∨
        cell.1.openEnd ≠ utf8Len row ∧ Boundary row cell.2) := by
  refine (findOpenTag_returns _ hi).bind fun td htd => ?_
  refine (findOpenTag_returns _ hi).bind fun th hth => ?_
  split
  · exact returns_pure (by rintro cell ⟨⟩)
  · rename_i lt tag hfirst
    obtain ⟨hle, hlt⟩ : i ≤ lt ∧ LtAt row lt := by
      obtain h | h := firstCell_eq_some hfirst
      · exact htd lt h
      · exact hth lt h
    split
    · exact returns_pure (by rintro cell ⟨⟩)
    · rename_i openEnd hend
      obtain ⟨hle', hopen⟩ := tagEnd_eq_some hend
      refine (slice_returns hlt.boundary hopen (by omega)).bind fun tagSrc _ => ?_
      refine (attr_returns rfl tagSrc).bind fun colspan _ => ?_
      refine (findMatchingClose_returns tag hopen).bind fun close hclose => ?_
      refine (findOpenTag_returns _ hopen).bind fun nextTd hnextTd => ?_
      refine (findOpenTag_returns _ hopen).bind fun nextTh hnextTh => ?_
      obtain ⟨hge, hcell⟩ : openEnd ≤ cellEnd row (close.map (·.1)) nextTd nextTh ∧
          (LtAt row (cellEnd row (close.map (·.1)) nextTd nextTh) ∨
            cellEnd row (close.map (·.1)) nextTd nextTh = utf8Len row) := by
        obtain h | h | h | h := cellEnd_cases row (close.map (·.1)) nextTd nextTh
        · obtain ⟨span, hspan, heq⟩ := Option.map_eq_some_iff.mp h
          obtain ⟨hge, -, hat, -⟩ := hclose span hspan
          rw [← heq]
          exact ⟨hge, Or.inl hat⟩
        · exact ⟨(hnextTd _ h).1, Or.inl (hnextTd _ h).2⟩
        · exact ⟨(hnextTh _ h).1, Or.inl (hnextTh _ h).2⟩
        · rw [h]
          exact ⟨hopen.le_len, Or.inr rfl⟩
      dsimp only
      generalize cellEnd row (close.map (·.1)) nextTd nextTh = e at hge hcell
      have he : Boundary row e := by
        obtain h | rfl := hcell
        · exact h.boundary
        · exact boundary_len row
      refine (slice_returns hopen he hge).bind fun html _ => returns_pure ?_
      rintro _ ⟨⟩
      dsimp only
      refine ⟨by omega, ?_⟩
      have hlen := he.le_len
      by_cases hdangling : openEnd = utf8Len row
      · exact Or.inl ⟨hdangling, by omega⟩
      · refine Or.inr ⟨hdangling, ?_⟩
        by_cases hempty : e = openEnd
        · -- an empty cell: the tag at its end is passed over
          subst hempty
          rw [Nat.max_eq_right (Nat.le_succ e)]
          obtain h | h := hcell
          · exact h.boundary_succ
          · exact absurd h hdangling
        · rwa [Nat.max_eq_left (by omega)]

theorem nextCell_eq_error (row : Text) :
    nextCell row (utf8Len row + 1) = .error .badSlice := by
  have hopen : findOpenTag row (utf8Len row + 1) "td".toList = .error .badSlice := by
    unfold findOpenTag
    rw [loop]
    unfold findOpenTagTurn
    rw [findFrom_eq_error (Nat.lt_succ_self _)]
    rfl
  unfold nextCell
  rw [hopen]
  rfl

/-- **The cells of a row are found, unless a column dangles.** -/
theorem tableCells_settles (row : Text) :
    Settles (tableCells row) (fun _ => True) (DanglingRow row) := by
  have hloop : Settles (tableCells row) (fun _ => True) (0 = utf8Len row + 1 ∨
      ∃ cell, Meets (nextCell row) 0 cell ∧ cell.openEnd = utf8Len row) := by
    -- the position decreases the distance to one past the row's end; a cell left open at the very
    -- end sends the loop to that place, and the next slice panics
    refine loop_settles
      (fun state : ℕ × List (Text × ℕ) => Boundary row state.1 ∨ state.1 = utf8Len row + 1)
      (fun state => utf8Len row + 1 - state.1)
      (fun state => state.1 = utf8Len row + 1 ∨
        ∃ cell, Meets (nextCell row) state.1 cell ∧ cell.openEnd = utf8Len row)
      ?_ (Or.inl (boundary_zero row)) (Nat.lt_succ_self _)
    rintro ⟨i, cells⟩ (hi | hi)
    · dsimp only at hi ⊢
      have hlen := hi.le_len
      right
      refine (nextCell_returns hi).and_ok.bind ?_
      rintro (_ | ⟨cell, next⟩) ⟨hnext, hcell⟩
      · refine returns_pure ⟨trivial, ?_⟩
        rintro (h | ⟨cell, hmeets, -⟩)
        · omega
        · exact not_meets_of_none hnext hmeets
      · obtain ⟨hlt, hend⟩ := hcell _ rfl
        dsimp only at hlt hend
        have hinv : Boundary row next ∨ next = utf8Len row + 1 := by
          obtain ⟨-, h⟩ | ⟨-, h⟩ := hend
          · exact Or.inr h
          · exact Or.inl h
        have hle : next ≤ utf8Len row + 1 := by
          obtain h | h := hinv
          · exact Nat.le_succ_of_le h.le_len
          · exact h.le
        refine returns_pure ⟨hinv, by dsimp only; omega, ?_⟩
        dsimp only
        constructor
        -- what the later turns meet, this one meets now or later: `Meets` unfolds one cell at a
        -- time
        · rintro (h | ⟨c, hmeets, hc⟩)
          · omega
          · obtain rfl | hlater := (meets_iff hnext).mp hmeets
            · obtain ⟨-, h⟩ | ⟨h, -⟩ := hend
              · exact Or.inl h
              · exact absurd hc h
            · exact Or.inr ⟨c, hlater, hc⟩
        · rintro (h | ⟨c, hmeets, hc⟩)
          · obtain ⟨hc, -⟩ | ⟨-, hbound⟩ := hend
            · exact Or.inr ⟨cell, Meets.here hnext, hc⟩
            · have hover := hbound.le_len
              omega
          · exact Or.inr ⟨c, Meets.later hnext hmeets, hc⟩
    · dsimp only at hi ⊢
      subst hi
      refine Or.inl ⟨?_, Or.inl rfl⟩
      unfold tableCellsTurn
      dsimp only
      rw [nextCell_eq_error]
      rfl
  refine hloop.mono (fun _ h => h) ⟨?_, Or.inr⟩
  rintro (h | h)
  · exact absurd h (Nat.succ_ne_zero _).symm
  · exact h

/-! ## Rows and tables -/

/-- The next row of a table from an offset on, and where to go on after it. A row may be left
unclosed, and the next one ends it. -/
def nextRow (inner : Text) (i : ℕ) : Run (Option (Text × ℕ)) := do
  match ← findOpenTag inner i "tr".toList with
  | none => pure none
  | some lt =>
    match tagEnd inner lt with
    | none => pure none
    | some openEnd =>
      match ← findMatchingClose inner openEnd "tr".toList with
      | some (cs, ce) =>
        let row ← slice inner openEnd cs
        pure (some (row, ce))
      | none =>
        match ← findOpenTag inner openEnd "tr".toList with
        | some next =>
          let row ← slice inner openEnd next
          pure (some (row, next))
        | none =>
          let row ← sliceFrom inner openEnd
          pure (some (row, utf8Len inner))

/-- The columns of a cell: it is padded, so that columns stay aligned. -/
def cellColumns (cell : Text × ℕ) : Run (List Text) := do
  let text ← sanitizeCell cell.1
  pure (text :: List.replicate (cell.2 - 1) [])

/-- One turn over the rows of a table: the next row with its cells, or the end. -/
def tableGridTurn (inner : Text) :
    ℕ × List (List Text) → Run (Turn (ℕ × List (List Text)) (List (List Text)))
  | (i, grid) => do
    match ← nextRow inner i with
    | none => pure (.done grid)
    | some (rowHtml, after) =>
      let cells ← tableCells rowHtml
      let row := (← cells.mapM cellColumns).flatten
      pure (.more (after, if row = [] then grid else grid ++ [row]))

/-- A row of a Markdown table, with a bar before, between and after its cells. -/
def formatRow (cells : List Text) : Text :=
  '|' :: cells.flatMap fun c => [' '] ++ (if c = [] then [' '] else c) ++ " |".toList

/-- Rows of columns as a Markdown table, if there are two of each. -/
def formatGrid (grid : List (List Text)) : Option Text :=
  let cols := (grid.map List.length).foldl max 0
  if grid.length < 2 ∨ cols < 2 then none
  else
    let rows := grid.map fun row => row ++ List.replicate (cols - row.length) []
    some (formatRow (rows.headD []) ++ ['\n'] ++ (List.replicate cols "| --- ".toList).flatten ++
      ['|'] ++ rows.tail.flatMap fun row => '\n' :: formatRow row)

/-- A table in Markdown, or nothing where the grid has no rows worth showing. -/
def tableToMarkdown (inner : Text) : Run (Option Text) := do
  let grid ← loop (tableGridTurn inner) (utf8Len inner + 1) (0, [])
  pure (formatGrid grid)

/-- The next table from an offset on: where it starts and what is inside; and where to go on. -/
def nextTable (s : Text) (i : ℕ) : Run (Option ((ℕ × Text) × ℕ)) := do
  match ← findOpenTag s i "table".toList with
  | none => pure none
  | some lt =>
    match tagEnd s lt with
    | none => pure none
    | some openEnd =>
      let (inner, after) ← innerOf s openEnd "table".toList
      pure (some ((lt, inner), after))

/-- One turn of `htmlTablesToMarkdown`: what is before the next table is copied, and the
table converted or copied. -/
def htmlTablesTurn (s : Text) : ℕ × Text → Run (Turn (ℕ × Text) Text)
  | (i, out) => do
    match ← nextTable s i with
    | none =>
      let rest ← sliceFrom s i
      pure (.done (out ++ rest))
    | some ((lt, inner), after) =>
      match ← tableToMarkdown inner with
      | some md =>
        let plain ← slice s i lt
        pure (.more (after, out ++ plain ++ "\n\n".toList ++ md ++ "\n\n".toList))
      | none =>
        -- not table-shaped enough: it is left for the generic strip
        let plain ← slice s i after
        pure (.more (after, out ++ plain))

/-- Replace HTML tables by Markdown ones; a table that cannot be converted stays as it was. -/
def htmlTablesToMarkdown (s : Text) : Run Text :=
  loop (htmlTablesTurn s) (utf8Len s + 1) (0, [])

/-- A row of the table has a dangling column, so that rewriting the table slices past the
end of a row. -/
def DanglingTable (inner : Text) : Prop :=
  ∃ row, Meets (nextRow inner) 0 row ∧ DanglingRow row

/-- **A table of the text has a row with a dangling column.** -/
def DanglingColumn (s : Text) : Prop :=
  ∃ table, Meets (nextTable s) 0 table ∧ DanglingTable table.2

/-- **The scan for rows goes forward**, to a boundary. -/
theorem nextRow_returns {inner : Text} {i : ℕ} (hi : Boundary inner i) :
    Returns (nextRow inner i) fun found =>
      ∀ row ∈ found, i < row.2 ∧ Boundary inner row.2 := by
  refine (findOpenTag_returns _ hi).bind ?_
  rintro (_ | lt) hfound
  · exact returns_pure (by rintro row ⟨⟩)
  obtain ⟨hle, hlt⟩ := hfound lt rfl
  dsimp only
  split
  · exact returns_pure (by rintro row ⟨⟩)
  rename_i openEnd hend
  obtain ⟨hle', hopen⟩ := tagEnd_eq_some hend
  refine (findMatchingClose_returns _ hopen).bind ?_
  rintro (_ | ⟨cs, ce⟩) hclose
  · refine (findOpenTag_returns _ hopen).bind ?_
    rintro (_ | next) hnext
    · refine (sliceFrom_returns hopen).bind fun row _ => returns_pure ?_
      rintro _ ⟨⟩
      have hlen := hopen.le_len
      exact ⟨by dsimp only; omega, boundary_len inner⟩
    · obtain ⟨hge, hat⟩ := hnext next rfl
      refine (slice_returns hopen hat.boundary hge).bind fun row _ => returns_pure ?_
      rintro _ ⟨⟩
      exact ⟨by dsimp only; omega, hat.boundary⟩
  · obtain ⟨hge, hlt', hcs, hce⟩ := hclose _ rfl
    refine (slice_returns hopen hcs.boundary hge).bind fun row _ => returns_pure ?_
    rintro _ ⟨⟩
    exact ⟨by dsimp only at hge hlt' ⊢; omega, hce⟩

/-- **The scan for tables goes forward**, to a boundary. -/
theorem nextTable_returns {i : ℕ} (hi : Boundary s i) :
    Returns (nextTable s i) fun found => ∀ table ∈ found,
      i ≤ table.1.1 ∧ i < table.2 ∧ Boundary s table.1.1 ∧ Boundary s table.2 := by
  refine (findOpenTag_returns _ hi).bind ?_
  rintro (_ | lt) hfound
  · exact returns_pure (by rintro table ⟨⟩)
  obtain ⟨hle, hlt⟩ := hfound lt rfl
  dsimp only
  split
  · exact returns_pure (by rintro table ⟨⟩)
  rename_i openEnd hend
  obtain ⟨hle', hopen⟩ := tagEnd_eq_some hend
  refine (innerOf_returns hopen _).bind ?_
  rintro ⟨inner, after⟩ ⟨hge, hafter⟩
  refine returns_pure ?_
  rintro _ ⟨⟩
  exact ⟨hle, by dsimp only at hge ⊢; omega, hlt.boundary, hafter⟩

theorem cellColumns_returns (cell : Text × ℕ) : Returns (cellColumns cell) fun _ => True :=
  (sanitizeCell_returns cell.1).bind fun _ _ => returns_pure trivial

/-- **A table is rewritten, unless a column dangles.** -/
theorem tableToMarkdown_settles (inner : Text) :
    Settles (tableToMarkdown inner) (fun _ => True) (DanglingTable inner) := by
  refine Settles.bind (P := fun _ => True) ?_ fun grid _ => returns_pure trivial
  refine loop_settles (fun state : ℕ × List (List Text) => Boundary inner state.1)
    (fun state => utf8Len inner - state.1)
    (fun state => ∃ row, Meets (nextRow inner) state.1 row ∧ DanglingRow row)
    ?_ (boundary_zero inner) (Nat.lt_succ_self _)
  rintro ⟨i, grid⟩ hi
  dsimp only at hi ⊢
  obtain ⟨found, hnext, hfound⟩ := nextRow_returns hi
  unfold tableGridTurn
  dsimp only
  rw [hnext]
  cases found with
  | none =>
    refine Or.inr (returns_pure ⟨trivial, ?_⟩)
    rintro ⟨row, hmeets, -⟩
    exact not_meets_of_none hnext hmeets
  | some found =>
    obtain ⟨rowHtml, after⟩ := found
    obtain ⟨hlt, hafter⟩ := hfound _ rfl
    dsimp only at hlt hafter
    have hlen := hafter.le_len
    show (tableCells rowHtml >>= _) = _ ∧ _ ∨ Returns (tableCells rowHtml >>= _) _
    obtain ⟨hcells, hgood⟩ | ⟨hcells, hbad⟩ := tableCells_settles rowHtml
    · refine Or.inr (hcells.bind fun cells _ => ?_)
      refine (mapM_returns fun cell _ => cellColumns_returns cell).bind fun columns _ => ?_
      exact returns_pure ⟨hafter, by dsimp only; omega, exists_meets_iff hnext hgood⟩
    · refine Or.inl ⟨?_, rowHtml, Meets.here hnext, hbad⟩
      rw [hcells]
      rfl

/-- **The tables of a text are rewritten, unless a column dangles.** -/
theorem htmlTablesToMarkdown_settles (s : Text) :
    Settles (htmlTablesToMarkdown s) (fun _ => True) (DanglingColumn s) := by
  refine loop_settles (fun state : ℕ × Text => Boundary s state.1)
    (fun state => utf8Len s - state.1)
    (fun state => ∃ table, Meets (nextTable s) state.1 table ∧ DanglingTable table.2)
    ?_ (boundary_zero s) (Nat.lt_succ_self _)
  rintro ⟨i, out⟩ hi
  dsimp only at hi ⊢
  obtain ⟨found, hnext, hfound⟩ := nextTable_returns hi
  unfold htmlTablesTurn
  dsimp only
  rw [hnext]
  cases found with
  | none =>
    refine Or.inr ((sliceFrom_returns hi).bind fun rest _ => returns_pure ⟨trivial, ?_⟩)
    rintro ⟨table, hmeets, -⟩
    exact not_meets_of_none hnext hmeets
  | some found =>
    obtain ⟨⟨lt, inner⟩, after⟩ := found
    obtain ⟨hle, hlt, hstart, hafter⟩ := hfound _ rfl
    dsimp only at hle hlt hstart hafter
    have hlen := hafter.le_len
    -- a table that is converted or passed over is not dangling, so the panic, if any, comes from a
    -- later one
    have hmore : ∀ out : Text, ¬ DanglingTable inner → Returns (pure (Turn.more (after, out)))
        (Turn.Sat (fun state : ℕ × Text => Boundary s state.1 ∧
            utf8Len s - state.1 < utf8Len s - i ∧
            ((∃ table, Meets (nextTable s) i table ∧ DanglingTable table.2) ↔
              ∃ table, Meets (nextTable s) state.1 table ∧ DanglingTable table.2))
          fun _ : Text => True ∧
            ¬ ∃ table, Meets (nextTable s) i table ∧ DanglingTable table.2) := by
      intro out hgood
      exact returns_pure ⟨hafter, by dsimp only; omega, exists_meets_iff hnext hgood⟩
    show (tableToMarkdown inner >>= _) = _ ∧ _ ∨ Returns (tableToMarkdown inner >>= _) _
    obtain ⟨hmd, hgood⟩ | ⟨hmd, hbad⟩ := tableToMarkdown_settles inner
    · refine Or.inr (hmd.bind ?_)
      rintro (_ | md) -
      · exact (slice_returns hi hafter hlt.le).bind fun plain _ => hmore _ hgood
      · exact (slice_returns hi hstart hle).bind fun plain _ => hmore _ hgood
    -- the row's panic goes straight through the loop
    · refine Or.inl ⟨?_, _, Meets.here hnext, hbad⟩
      rw [hmd]
      rfl

end Readme

end Atlas
