import Atlas.ReadmeInline

/-!
# Model cards

`parse` lowers a model card to blocks of styled text: the frontmatter is set aside, the code is
lifted out, tables and tags become Markdown, entities are decoded, the code is put back, and the
lines are grouped into blocks whose text is parsed inline.

The result is for every text. No loop ever runs on without end, and every slice lies between two
characters of the text, but for one case: `parse_returns_iff` says that the parser returns unless
a row of an HTML table ends with the opening tag of a column.
-/

namespace Atlas

namespace Readme

/-- A block of a model card, as the library shows it. -/
inductive Block where
  | heading (level : ℕ) (spans : List Span)
  | paragraph (spans : List Span)
  | code (lang : Option Text) (code : Text)
  | listItem (indent : ℕ) (ordered : Option ℕ) (spans : List Span)
  | quote (spans : List Span)
  | table (header : List (List Span)) (rows : List (List (List Span)))
  | image (src : Text) (alt : Text) (width : Option ℕ)
  | divider

end Readme

/-- A parsed model card: its frontmatter, kept as text, and its blocks. -/
structure Readme where
  frontmatter : Option Text
  blocks : List Readme.Block

namespace Readme

open Text Run

/-! ## Lines -/

/-- A text without a character at its start, where it begins with it, and at most once. -/
def stripPrefixChar (c : Char) (s : Text) : Text := if s.head? = some c then s.tail else s

/-- A text without a character at its end, where it ends with it, and at most once. -/
def stripSuffixChar (c : Char) (s : Text) : Text := if s.getLast? = some c then s.dropLast else s

/-- The level of a heading and its text, if a line is one. -/
def headingLine (t : Text) : Run (Option (ℕ × Text)) :=
  let level := byteRun (· = '#'.toUInt8) t 0
  if level = 0 ∨ 6 < level then pure none
  else do
    let rest ← sliceFrom t level
    if rest ≠ [] ∧ rest.head? ≠ some ' ' then pure none
    else pure (some (level, trimEnd ((trim rest).rdropWhile (· = '#'))))

/-- A line is a divider: at least three of one mark, with blanks between them at most. -/
def isDividerLine (t : Text) : Bool :=
  3 ≤ utf8Len t && ['-', '*', '_'].any fun c =>
    t.all (fun ch => ch = c || ch = ' ') && 3 ≤ t.countP fun ch => ch = c

/-- The line under the header of a table: cells of dashes, with colons at their ends,
between bars. -/
def isTableDivider (line : Text) : Bool :=
  let t := trim line
  if '|' ∉ t ∨ '-' ∉ t then false
  else
    let inner := stripSuffixChar '|' (stripPrefixChar '|' t)
    (inner.splitOnP (· = '|')).all fun cell =>
      let c := stripSuffixChar ':' (stripPrefixChar ':' (trim cell))
      c ≠ [] && c.all fun ch => ch = '-'

/-- The loop over the characters of a row: the cell so far, whether it is within a code span, and
whether the last character was a backtick. -/
def splitTableRowFrom (cur : Text) (inCode tick : Bool) : Text → List Text
  | [] => [trim cur]
  | '\\' :: '|' :: s => splitTableRowFrom (cur ++ ['|']) inCode false s
  | ch :: s =>
    if ch = '`' then splitTableRowFrom (cur ++ [ch]) (if tick then inCode else !inCode) true s
    else if ch = '|' ∧ inCode = false then trim cur :: splitTableRowFrom [] inCode false s
    else splitTableRowFrom (cur ++ [ch]) inCode false s

/-- The cells of a row; pipes inside a code span are literal. -/
def splitTableRow (line : Text) : List Text :=
  let t := trim line
  let cells := splitTableRowFrom [] false false t
  let cells := if t.head? = some '|' ∧ cells.head? = some [] then cells.tail else cells
  if t.getLast? = some '|' ∧ cells.getLast? = some [] then cells.dropLast else cells

/-- An image that is a line of its own, with its alternative text and its target, or nothing
if the line is something else. -/
def standaloneImage (t : Text) : Run (Option Block) :=
  if "![".toList.isPrefixOf t then
    let rest := t.drop 2
    match findBalanced rest '[' ']' with
    | none => pure none
    | some close => do
      let alt ← sliceTo rest close
      let after ← sliceFrom rest (close + 1)
      match after with
      | '(' :: paren =>
        match findBalanced paren '(' ')' with
        | none => pure none
        | some e =>
          let beyond ← sliceFrom paren (e + 1)
          if trim beyond ≠ [] then pure none
          else
            let src ← sliceTo paren e
            let (src, width) := peelWidth (trim src)
            pure (some (.image src (trim alt) width))
      | _ => pure none
  else pure none

/-- How far a line is indented: a tab is four columns; the first other character ends the
indentation. -/
def indentOf : Text → ℕ
  | ' ' :: s => indentOf s + 1
  | '\t' :: s => indentOf s + 4
  | _ => 0

/-- An ordered list item, from its number on, which has nine digits at most. -/
def orderedItem (indent : ℕ) (t : Text) : Run (Option (ℕ × Option ℕ × Text)) :=
  let digits := byteRun (fun b => '0'.toUInt8 ≤ b && b ≤ '9'.toUInt8) t 0
  if digits = 0 ∨ 9 < digits then pure none
  else do
    let after ← sliceFrom t digits
    if ". ".toList.isPrefixOf after ∨ ") ".toList.isPrefixOf after then
      let number ← sliceTo t digits
      pure ((parseU32 number).map fun n => (indent, some n, trimStart (after.drop 2)))
    else pure none

/-- The depth of a list item, its number and its text, if a line is one. -/
def listItemLine (line : Text) : Run (Option (ℕ × Option ℕ × Text)) :=
  let t := trimStart line
  let indent := min (indentOf line / 2) 8
  if ["- ".toList, "* ".toList, "+ ".toList].any fun marker => marker.isPrefixOf t then
    let rest := t.drop 2
    if "[ ]".toList.isPrefixOf (trimStart rest) then pure (some (indent, none, rest))
    else pure (some (indent, none, trimStart rest))
  else orderedItem indent t

theorem headingLine_returns (t : Text) : Returns (headingLine t) fun _ => True := by
  have hhash : ∀ b : UInt8, decide (b = '#'.toUInt8) = true → b.toNat < 128 :=
    forall_byte (by decide +kernel)
  have hlevel := boundary_byteRun hhash (boundary_zero t) le_rfl
  rw [Nat.zero_add] at hlevel
  unfold headingLine
  dsimp only
  split
  · exact returns_pure trivial
  · refine (sliceFrom_returns hlevel).bind fun rest _ => ?_
    split
    · exact returns_pure trivial
    · exact returns_pure trivial

theorem standaloneImage_returns (t : Text) : Returns (standaloneImage t) fun _ => True := by
  unfold standaloneImage
  split
  · dsimp only
    split
    · exact returns_pure trivial
    · rename_i close hclose
      obtain ⟨u, hu⟩ := findBalanced_eq_some hclose
      refine (sliceTo_returns hu.boundary).bind fun alt _ => ?_
      have hbeyond : TailAt (t.drop 2) (close + 1) u := hu.cons
      refine (sliceFrom_returns hbeyond.boundary).bind fun after hafter => ?_
      split
      · rename_i paren
        split
        · exact returns_pure trivial
        · rename_i e hend
          obtain ⟨v, hv⟩ := findBalanced_eq_some hend
          have hend : TailAt paren (e + 1) v := hv.cons
          refine (sliceFrom_returns hend.boundary).bind fun beyond _ => ?_
          split
          · exact returns_pure trivial
          · exact (sliceTo_returns hv.boundary).bind fun _ _ => returns_pure trivial
      · exact returns_pure trivial
  · exact returns_pure trivial

theorem listItemLine_returns (line : Text) : Returns (listItemLine line) fun _ => True := by
  unfold listItemLine
  dsimp only
  split
  · split
    · exact returns_pure trivial
    · exact returns_pure trivial
  · have hdigit : ∀ b : UInt8, ('0'.toUInt8 ≤ b && b ≤ '9'.toUInt8) = true → b.toNat < 128 :=
      forall_byte (by decide +kernel)
    have hdigits := boundary_byteRun hdigit (boundary_zero (trimStart line)) le_rfl
    rw [Nat.zero_add] at hdigits
    unfold orderedItem
    dsimp only
    split
    · exact returns_pure trivial
    · refine (sliceFrom_returns hdigits).bind fun after _ => ?_
      split
      · exact (sliceTo_returns hdigits).bind fun _ _ => returns_pure trivial
      · exact returns_pure trivial

/-! ## Blocks -/

section Blocks

variable (isAlphanumeric : Char → Bool)

/-- A paragraph of the lines so far, unless it has no text. -/
def flushParagraph (para : List Text) (blocks : List Block) : Run (List Block) :=
  if para = [] then pure blocks
  else do
    let spans ← inlineSpans isAlphanumeric ([' '].intercalate para)
    pure (if spans = [] then blocks else blocks ++ [.paragraph spans])

/-- A quote of the lines so far, unless it has no text. -/
def flushQuote (quoteLines : List Text) (blocks : List Block) : Run (List Block) :=
  if quoteLines = [] then pure blocks
  else do
    let spans ← inlineSpans isAlphanumeric ([' '].intercalate quoteLines)
    pure (if spans = [] then blocks else blocks ++ [.quote spans])

/-- The loop over the lines of a quote, which ends where a line does not begin with `>`. -/
def takeQuote (quoteLines : List Text) (blocks : List Block) :
    List Text → Run (List Block × List Text)
  | [] => do
    let blocks ← flushQuote isAlphanumeric quoteLines blocks
    pure (blocks, [])
  | line :: rest =>
    if (trim line).head? = some '>' then
      let stripped := stripPrefixChar ' ' (trim line).tail
      if stripped = [] then do
        let blocks ← flushQuote isAlphanumeric quoteLines blocks
        takeQuote [] blocks rest
      else takeQuote (quoteLines ++ [stripped]) blocks rest
    else do
      let blocks ← flushQuote isAlphanumeric quoteLines blocks
      pure (blocks, line :: rest)

/-- The loop over the rows of a table, each cut or padded to the columns of the header. -/
def takeRows (width : ℕ) (rows : List (List (List Span))) :
    List Text → Run (List (List (List Span)) × List Text)
  | [] => pure (rows, [])
  | line :: rest =>
    if '|' ∈ trim line then do
      let cells := splitTableRow (trim line)
      let row ← ((cells ++ List.replicate (width - cells.length) []).take width).mapM
        (inlineSpans isAlphanumeric)
      takeRows width (rows ++ [row]) rest
    else pure (rows, line :: rest)

/-- The table with this header, and the lines after it; the line that separates the two is
skipped. -/
def tableBlock (header : Text) (rest : List Text) : Run (Block × List Text) := do
  let cells := splitTableRow header
  let headerSpans ← cells.mapM (inlineSpans isAlphanumeric)
  let (rows, rest) ← takeRows isAlphanumeric cells.length [] rest.tail
  pure (.table headerSpans rows, rest)

/-- What is left of a block scan: the lines, the lines of the paragraph, and the blocks. -/
abbrev Scan : Type := List Text × List Text × List Block

/-- The block that starts with a line which is neither blank nor a fence, and the scan after it. -/
def blockAt (line : Text) (rest para : List Text) (blocks : List Block) : Run Scan := do
  let trimmed := trim line
  match ← headingLine trimmed with
  | some (level, text) =>
    let blocks ← flushParagraph isAlphanumeric para blocks
    let spans ← inlineSpans isAlphanumeric text
    pure (rest, [], blocks ++ [.heading level spans])
  | none =>
    if isDividerLine trimmed then
      let blocks ← flushParagraph isAlphanumeric para blocks
      pure (rest, [], blocks ++ [.divider])
    else if '|' ∈ trimmed ∧ rest.head?.any isTableDivider then
      let blocks ← flushParagraph isAlphanumeric para blocks
      let (table, rest) ← tableBlock isAlphanumeric trimmed rest
      pure (rest, [], blocks ++ [table])
    else if trimmed.head? = some '>' then
      let blocks ← flushParagraph isAlphanumeric para blocks
      let (blocks, rest) ← takeQuote isAlphanumeric [] blocks (line :: rest)
      pure (rest, [], blocks)
    else
      match ← standaloneImage trimmed with
      | some img =>
        let blocks ← flushParagraph isAlphanumeric para blocks
        pure (rest, [], blocks ++ [img])
      | none =>
        match ← listItemLine line with
        | some (indent, ordered, text) =>
          let blocks ← flushParagraph isAlphanumeric para blocks
          let spans ← inlineSpans isAlphanumeric text
          pure (rest, [], if spans = [] then blocks else blocks ++ [.listItem indent ordered spans])
        | none => pure (rest, para ++ [trimmed], blocks)

/-- One turn of `parseBlocks`: a line, or the several lines that a block takes, is read off
the rest. -/
def parseBlocksTurn : Scan → Run (Turn Scan (List Block))
  | ([], para, blocks) => do
    let blocks ← flushParagraph isAlphanumeric para blocks
    pure (.done blocks)
  | (line :: rest, para, blocks) =>
    if trim line = [] then do
      let blocks ← flushParagraph isAlphanumeric para blocks
      pure (.more (rest, [], blocks))
    else do
      match ← fenceOpen line with
      | some (fenceChar, fenceLen, info) =>
        let blocks ← flushParagraph isAlphanumeric para blocks
        let (body, rest) ← takeFence fenceChar fenceLen [] rest
        let lang := (splitWhitespace info).head?
        pure (.more (rest, [], blocks ++ [.code lang (popLineFeed body)]))
      | none =>
        let scan ← blockAt isAlphanumeric line rest para blocks
        pure (.more scan)

/-- Group the lines of a text into blocks; a paragraph is open until a blank line or another
block. -/
def parseBlocks (s : Text) : Run (List Block) :=
  loop (parseBlocksTurn isAlphanumeric) ((lines s).length + 1) (lines s, [], [])

variable {isAlphanumeric}

theorem flushParagraph_returns (para : List Text) (blocks : List Block) :
    Returns (flushParagraph isAlphanumeric para blocks) fun _ => True := by
  unfold flushParagraph
  split
  · exact returns_pure trivial
  · exact (inlineSpans_returns isAlphanumeric _).bind fun _ _ => returns_pure trivial

theorem flushQuote_returns (quoteLines : List Text) (blocks : List Block) :
    Returns (flushQuote isAlphanumeric quoteLines blocks) fun _ => True := by
  unfold flushQuote
  split
  · exact returns_pure trivial
  · exact (inlineSpans_returns isAlphanumeric _).bind fun _ _ => returns_pure trivial

theorem takeQuote_returns (quoteLines : List Text) (blocks : List Block) (ls : List Text) :
    Returns (takeQuote isAlphanumeric quoteLines blocks ls) fun taken =>
      taken.2.length ≤ ls.length := by
  induction ls generalizing quoteLines blocks with
  | nil => exact (flushQuote_returns _ _).bind fun _ _ => returns_pure le_rfl
  | cons line rest ih =>
    unfold takeQuote
    split
    · dsimp only
      split
      · refine (flushQuote_returns _ _).bind fun blocks _ => ?_
        exact (ih _ _).mono fun _ h => Nat.le_succ_of_le h
      · exact (ih _ _).mono fun _ h => Nat.le_succ_of_le h
    · exact (flushQuote_returns _ _).bind fun _ _ => returns_pure le_rfl

/-- A quote takes the line that it starts with. -/
theorem takeQuote_cons_returns {line : Text} (h : (trim line).head? = some '>')
    (blocks : List Block) (rest : List Text) :
    Returns (takeQuote isAlphanumeric [] blocks (line :: rest)) fun taken =>
      taken.2.length ≤ rest.length := by
  unfold takeQuote
  rw [if_pos h]
  dsimp only
  split
  · exact (flushQuote_returns _ _).bind fun blocks _ => takeQuote_returns _ _ rest
  · exact takeQuote_returns _ _ rest

theorem takeRows_returns (width : ℕ) (rows : List (List (List Span))) (ls : List Text) :
    Returns (takeRows isAlphanumeric width rows ls) fun taken =>
      taken.2.length ≤ ls.length := by
  induction ls generalizing rows with
  | nil => exact returns_pure le_rfl
  | cons line rest ih =>
    unfold takeRows
    split
    · refine (mapM_returns fun cell _ => inlineSpans_returns isAlphanumeric cell).bind
        fun row _ => ?_
      exact (ih _).mono fun _ h => Nat.le_succ_of_le h
    · exact returns_pure le_rfl

theorem tableBlock_returns (header : Text) (rest : List Text) :
    Returns (tableBlock isAlphanumeric header rest) fun taken =>
      taken.2.length ≤ rest.length := by
  refine (mapM_returns fun cell _ => inlineSpans_returns isAlphanumeric cell).bind
    fun headerSpans _ => ?_
  refine (takeRows_returns _ _ _).bind fun taken htaken => returns_pure ?_
  exact htaken.trans (List.tail_suffix rest).length_le

/-- **A block is parsed**, and takes its line. -/
theorem blockAt_returns (line : Text) (rest para : List Text) (blocks : List Block) :
    Returns (blockAt isAlphanumeric line rest para blocks) fun scan =>
      scan.1.length ≤ rest.length := by
  refine (headingLine_returns (trim line)).bind ?_
  rintro (_ | ⟨level, text⟩) -
  · dsimp only
    split
    · exact (flushParagraph_returns _ _).bind fun _ _ => returns_pure le_rfl
    split
    · exact (flushParagraph_returns _ _).bind fun _ _ =>
        (tableBlock_returns _ _).bind fun _ hle => returns_pure hle
    split
    · rename_i hquote
      exact (flushParagraph_returns _ _).bind fun _ _ =>
        (takeQuote_cons_returns hquote _ _).bind fun _ hle => returns_pure hle
    refine (standaloneImage_returns (trim line)).bind ?_
    rintro (_ | img) -
    · refine (listItemLine_returns line).bind ?_
      rintro (_ | ⟨indent, ordered, text⟩) -
      · exact returns_pure le_rfl
      · exact (flushParagraph_returns _ _).bind fun _ _ =>
          (inlineSpans_returns isAlphanumeric text).bind fun _ _ => returns_pure le_rfl
    · exact (flushParagraph_returns _ _).bind fun _ _ => returns_pure le_rfl
  · exact (flushParagraph_returns _ _).bind fun _ _ =>
      (inlineSpans_returns isAlphanumeric text).bind fun _ _ => returns_pure le_rfl

/-- **The lines of every text are grouped.** -/
theorem parseBlocks_returns (s : Text) :
    Returns (parseBlocks isAlphanumeric s) fun _ => True := by
  refine loop_returns (fun _ => True) (fun scan => scan.1.length) ?_ trivial (Nat.lt_succ_self _)
  rintro ⟨_ | ⟨line, rest⟩, para, blocks⟩ -
  · exact (flushParagraph_returns _ _).bind fun _ _ => returns_pure trivial
  · unfold parseBlocksTurn
    dsimp only
    split
    · exact (flushParagraph_returns _ _).bind fun _ _ =>
        returns_pure ⟨trivial, Nat.lt_succ_self _⟩
    · refine (fenceOpen_returns line).bind ?_
      rintro (_ | ⟨fenceChar, fenceLen, info⟩) hfence
      · exact (blockAt_returns _ _ _ _).bind fun scan hle =>
          returns_pure ⟨trivial, Nat.lt_succ_of_le hle⟩
      · refine (flushParagraph_returns _ _).bind fun blocks _ => ?_
        exact (takeFence_returns (hfence _ rfl) fenceLen [] rest).bind fun taken hle =>
          returns_pure ⟨trivial, Nat.lt_succ_of_le hle⟩

end Blocks

/-! ## Passes -/

/-- A text whose code is lifted out, and the code, kind by kind, so that nothing between can
rewrite it. -/
structure Lifted where
  text : Text
  fenced : List Fenced
  mdCode : List Text
  pre : List HtmlCode
  inline : List Text

/-- The passes that lift code out before anything else is rewritten, and leave placeholders
for it. -/
def liftCode (src : Text) : Run Lifted := do
  let (s, fenced) ← extractFencedBlocks src
  let s ← stripHtmlComments s
  let (s, mdCode) ← extractMdCodeSpans s
  let (text, pre, inline) ← protectCodeHtml s
  return { text, fenced, mdCode, pre, inline }

/-- Lower HTML to Markdown. The order of the passes is load-bearing. -/
def normalize (src : Text) : Run Text := do
  let lifted ← liftCode src
  let s ← htmlTablesToMarkdown lifted.text
  let s ← rewriteTags s
  let s ← decodeEntities s
  let s ← restoreCodeHtml (collapseBlankLines s) lifted.pre lifted.inline
  pure (restoreFencedBlocks (restorePlaceholders s "MDCODE".toList lifted.mdCode) lifted.fenced)

/-- Parse a raw model card: the frontmatter is set aside, the body normalised, and its lines
grouped. -/
def parse (isAlphanumeric : Char → Bool) (raw : Text) : Run Readme := do
  let (frontmatter, body) ← splitFrontmatter (replaceAll "\r\n".toList ['\n'] raw)
  let normalized ← normalize body
  let blocks ← parseBlocks isAlphanumeric normalized
  pure { frontmatter, blocks }

/-- The text whose tables are rewritten, as the passes before that one leave it. -/
def tablesText (raw : Text) : Run Text := do
  let (_, body) ← splitFrontmatter (replaceAll "\r\n".toList ['\n'] raw)
  let lifted ← liftCode body
  pure lifted.text

theorem liftCode_returns (src : Text) : Returns (liftCode src) fun _ => True :=
  (extractFencedBlocks_returns src).bind fun fenced _ =>
    (stripHtmlComments_returns fenced.1).bind fun s _ =>
      (extractMdCodeSpans_returns s).bind fun spans _ =>
        (protectCodeHtml_returns spans.1).bind fun _ _ => returns_pure trivial

/-- **A model card is parsed, unless a column of the text whose tables are rewritten dangles.** -/
theorem parse_settles (isAlphanumeric : Char → Bool) (raw : Text) :
    Settles (parse isAlphanumeric raw) (fun _ => True)
      (∃ s, tablesText raw = .ok s ∧ DanglingColumn s) := by
  obtain ⟨⟨frontmatter, body⟩, hsplit, -⟩ :=
    splitFrontmatter_returns (replaceAll "\r\n".toList ['\n'] raw)
  obtain ⟨lifted, hlift, -⟩ := liftCode_returns body
  have htext : tablesText raw = .ok lifted.text := by
    unfold tablesText
    rw [hsplit]
    show (liftCode body >>= fun lifted => pure lifted.text) = _
    rw [hlift]
    rfl
  have hbad : (∃ s, tablesText raw = .ok s ∧ DanglingColumn s) ↔ DanglingColumn lifted.text := by
    constructor
    · rintro ⟨s, hs, hdangling⟩
      rw [htext] at hs
      cases hs
      exact hdangling
    · exact fun hdangling => ⟨_, htext, hdangling⟩
  have hnormalize : Settles (normalize body) (fun _ => True) (DanglingColumn lifted.text) := by
    unfold normalize
    rw [hlift]
    refine (htmlTablesToMarkdown_settles lifted.text).bind fun s _ => ?_
    exact (rewriteTags_returns s).bind fun s _ => (decodeEntities_returns s).bind fun s _ =>
      (restoreCodeHtml_returns _ _ _).bind fun s _ => returns_pure trivial
  rw [hbad]
  unfold parse
  rw [hsplit]
  exact hnormalize.bind fun s _ => (parseBlocks_returns s).bind fun _ _ => returns_pure trivial

/-! ## The loops of the parser -/

/-- **The loops of the parser return on a text**: each of them ends, and each slice that it takes
lies between characters. -/
structure LoopsReturn (isAlphanumeric : Char → Bool) (s : Text) : Prop where
  comments : ∃ t, stripHtmlComments s = .ok t
  codeSpans : ∃ t, extractMdCodeSpans s = .ok t
  codeHtml : ∃ t, protectCodeHtml s = .ok t
  tables : ∃ t, htmlTablesToMarkdown s = .ok t
  tags : ∃ t, rewriteTags s = .ok t
  entities : ∃ t, decodeEntities s = .ok t
  inline : ∃ spans, inlineSpans isAlphanumeric s = .ok spans

theorem returns_iff_ok {α : Type} {x : Run α} : Returns x (fun _ => True) ↔ ∃ a, x = .ok a := by
  constructor
  · rintro ⟨a, h, -⟩
    exact ⟨a, h⟩
  · rintro ⟨a, h⟩
    exact ⟨a, h, trivial⟩

theorem loopsReturn_iff (isAlphanumeric : Char → Bool) (s : Text) :
    LoopsReturn isAlphanumeric s ↔ ¬ DanglingColumn s := by
  have htables := (htmlTablesToMarkdown_settles s).returns_iff
  rw [returns_iff_ok] at htables
  refine ⟨fun h => htables.mp h.tables, fun h => ⟨?_, ?_, ?_, htables.mpr h, ?_, ?_, ?_⟩⟩
  · exact returns_iff_ok.mp (stripHtmlComments_returns s)
  · exact returns_iff_ok.mp (extractMdCodeSpans_returns s)
  · exact returns_iff_ok.mp (protectCodeHtml_returns s)
  · exact returns_iff_ok.mp (rewriteTags_returns s)
  · exact returns_iff_ok.mp (decodeEntities_returns s)
  · exact returns_iff_ok.mp (inlineSpans_returns isAlphanumeric s)

/-- **Parsing ends, and it ends without a bad slice unless a column dangles.** The loops return on
every text but one in which a row of a table ends with the opening tag of a column, and there it
is the scan for the cells of a row that does not. So the parser returns on every model card but
one where that is so of the text whose tables are rewritten. No loop runs on without end. -/
theorem parse_returns_iff (isAlphanumeric : Char → Bool) (s : Text) :
    (LoopsReturn isAlphanumeric s ↔ ¬ DanglingColumn s) ∧
      htmlTablesToMarkdown s ≠ .error .endless ∧
      ((∃ card, parse isAlphanumeric s = .ok card) ↔
        ¬ ∃ t, tablesText s = .ok t ∧ DanglingColumn t) ∧
      parse isAlphanumeric s ≠ .error .endless := by
  have hparse := (parse_settles isAlphanumeric s).returns_iff
  rw [returns_iff_ok] at hparse
  exact ⟨loopsReturn_iff isAlphanumeric s, (htmlTablesToMarkdown_settles s).ne_endless, hparse,
    (parse_settles isAlphanumeric s).ne_endless⟩

/-- **A column that dangles is a bad slice.** The row of this table is its opening tag alone. -/
theorem dangling_column_faults :
    parse isAsciiAlphanumeric "<table><tr><td></tr></table>".toList = .error .badSlice ∧
      ¬ LoopsReturn isAsciiAlphanumeric "<table><tr><td></tr></table>".toList := by
  have htables : htmlTablesToMarkdown "<table><tr><td></tr></table>".toList =
      .error .badSlice := rfl
  refine ⟨rfl, fun h => ?_⟩
  obtain ⟨t, ht⟩ := h.tables
  rw [htables] at ht
  cases ht

end Readme

end Atlas
