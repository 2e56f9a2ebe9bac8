import Atlas.ReadmeTags

/-!
# Frontmatter, fences and code of a model card

Before its HTML is lowered to Markdown, a model card loses its frontmatter, and its code is
lifted out: fenced blocks, code spans, and the HTML elements of code. A placeholder stands for
each of them until the passes are over, which are not to rewrite literal text; then it is put
back by textual replacement.

Every pass returns on every text (`extractFencedBlocks_returns`, `stripHtmlComments_returns`,
`extractMdCodeSpans_returns`, `protectCodeHtml_returns`).
-/

namespace Atlas

namespace Readme

open Text Run

/-! ## Texts -/

/-- A text without the whitespace at its end, in the Unicode sense. -/
def trimEnd (s : Text) : Text := s.rdropWhile isWhitespace

/-- A text without the whitespace at its start, in the Unicode sense. -/
def trimStart (s : Text) : Text := s.dropWhile isWhitespace

/-- The words of a text, between runs of whitespace. -/
def splitWhitespace (s : Text) : List Text := (s.splitOnP isWhitespace).filter fun w => w ≠ []

/-- The longest run of a character, wherever in the text it is. -/
def longestRun (c : Char) (s : Text) : ℕ :=
  (s.foldl (fun run ch =>
    if ch = c then (max run.1 (run.2 + 1), run.2 + 1) else (run.1, 0)) (0, 0)).1

/-- How many characters at the start of a text are this one. -/
def leading (c : Char) (s : Text) : ℕ := (s.takeWhile (· = c)).length

/-- **After a run of an ASCII character there is a boundary** at its length. -/
theorem boundary_leading {c : Char} (hc : c.utf8Size = 1) (s : Text) :
    Boundary s (leading c s) := by
  have hlen : utf8Len (s.takeWhile (· = c)) = leading c s :=
    utf8Len_eq_length fun d hd => by
      rw [of_decide_eq_true (List.mem_takeWhile_imp (p := fun d => decide (d = c)) hd), hc]
  exact ⟨s.dropWhile (· = c), s.takeWhile (· = c), List.takeWhile_append_dropWhile.symm, hlen⟩

/-! ## Frontmatter -/

/-- The lines of a text, each with its line feed; `cur` is the one that is not over. -/
def splitInclusive (cur : Text) : Text → List Text
  | [] => if cur = [] then [] else [cur]
  | c :: s =>
    if c = '\n' then (cur ++ [c]) :: splitInclusive [] s else splitInclusive (cur ++ [c]) s

/-- The loop over the lines: the one that closes the frontmatter is searched. -/
def closeFrontmatter (rest : Text) (offset : ℕ) : List Text → Run (Option (Text × Text))
  | [] => pure none
  | line :: lines =>
    if trimEnd line = "---".toList then do
      let fm ← sliceTo rest offset
      let body ← sliceFrom rest (offset + utf8Len line)
      pure (some (trimEnd fm, body))
    else closeFrontmatter rest (offset + utf8Len line) lines

/-- What follows the line that opens a frontmatter, where the text begins with three dashes
on a line of their own. -/
def openFrontmatter (s : Text) : Option Text :=
  if "---\n".toList.isPrefixOf s then some (s.drop 4)
  else if "---".toList.isPrefixOf s ∧ (s.drop 3 = [] ∨ (s.drop 3).head? = some '\n') then
    some (s.drop 3)
  else none

/-- YAML frontmatter, set aside verbatim, and the body; without a closing line everything is
body. -/
def splitFrontmatter (s : Text) : Run (Option Text × Text) :=
  match openFrontmatter s with
  | none => pure (none, s)
  | some rest => do
    match ← closeFrontmatter rest 0 (splitInclusive [] rest) with
    | some (frontmatter, body) => pure (some frontmatter, body)
    | none => pure (none, s)

theorem flatten_splitInclusive (cur s : Text) : (splitInclusive cur s).flatten = cur ++ s := by
  induction s generalizing cur with
  | nil =>
    unfold splitInclusive
    split
    · rename_i hcur
      rw [hcur]
      rfl
    · rfl
  | cons c s ih =>
    unfold splitInclusive
    split
    · rw [List.flatten_cons, ih, List.append_assoc]
      rfl
    · rw [ih, List.append_assoc]
      rfl

theorem closeFrontmatter_returns {rest : Text} (before : Text) {lines : List Text}
    (h : rest = before ++ lines.flatten) :
    Returns (closeFrontmatter rest (utf8Len before) lines) fun _ => True := by
  induction lines generalizing before with
  | nil => exact returns_pure trivial
  | cons line lines ih =>
    have hnext : rest = (before ++ line) ++ lines.flatten := by
      rw [h, List.flatten_cons, List.append_assoc]
    have hlen : utf8Len before + utf8Len line = utf8Len (before ++ line) :=
      (utf8Len_append before line).symm
    unfold closeFrontmatter
    rw [hlen]
    split
    · have hbefore : Boundary rest (utf8Len before) := h ▸ (tailAt_append before _).boundary
      have hbody : Boundary rest (utf8Len (before ++ line)) :=
        hnext ▸ (tailAt_append (before ++ line) _).boundary
      exact (sliceTo_returns hbefore).bind fun _ _ =>
        (sliceFrom_returns hbody).bind fun _ _ => returns_pure trivial
    · exact ih (before ++ line) hnext

theorem splitFrontmatter_returns (s : Text) : Returns (splitFrontmatter s) fun _ => True := by
  unfold splitFrontmatter
  split
  · exact returns_pure trivial
  · rename_i rest _
    refine (closeFrontmatter_returns [] (flatten_splitInclusive [] rest).symm).bind ?_
    rintro (_ | found) -
    · exact returns_pure trivial
    · exact returns_pure trivial

/-! ## Placeholders -/

/-- What stands for the item of a number while the text around it is rewritten. -/
def placeholder (kind : Text) (i : ℕ) : Text := OBJ :: (kind ++ decimal i ++ [OBJ])

/-- Put back the items from a number on, each in place of its own placeholder. -/
def restoreFrom (kind : Text) (i : ℕ) (items : List Text) (s : Text) : Text :=
  match items with
  | [] => s
  | item :: rest => restoreFrom kind (i + 1) rest (replaceAll (placeholder kind i) item s)

/-- Put back the items of a kind, in place of all placeholders of that kind. -/
def restorePlaceholders (s kind : Text) (items : List Text) : Text := restoreFrom kind 0 items s

/-! ## Fences -/

/-- A fenced block that is lifted out: what its opening line says, and its text. -/
structure Fenced where
  info : Text
  body : Text

/-- The character of a fence, its length and its info string, if a line opens one. -/
def fenceOpen (line : Text) : Run (Option (Char × ℕ × Text)) :=
  let indent := utf8Len line - utf8Len (line.dropWhile (· = ' '))
  if 3 < indent then pure none
  else do
    let t ← sliceFrom line indent
    match t.head? with
    | none => pure none
    | some c =>
      if c ≠ '`' ∧ c ≠ '~' then pure none
      else if leading c t < 3 then pure none
      else
        let rest ← sliceFrom t (leading c t)
        -- an info string with a backtick is not one of a backtick fence
        if c = '`' ∧ '`' ∈ trim rest then pure none
        else pure (some (c, leading c t, trim rest))

/-- A line closes a fence of this character and length: the line has at least as many of
them, and nothing after. -/
def fenceClose (line : Text) (fenceChar : Char) (fenceLen : ℕ) : Run Bool :=
  if fenceLen ≤ leading fenceChar (trim line) then do
    let rest ← sliceFrom (trim line) (leading fenceChar (trim line))
    pure (trim rest = [])
  else pure false

/-- The lines up to the one that closes a fence, after `body`, and the lines after it. -/
def takeFence (fenceChar : Char) (fenceLen : ℕ) (body : Text) :
    List Text → Run (Text × List Text)
  | [] => pure (body, [])
  | inner :: rest => do
    if ← fenceClose inner fenceChar fenceLen then pure (body, rest)
    else takeFence fenceChar fenceLen (body ++ inner ++ ['\n']) rest

/-- A text without the line feed at its end; a text that ends otherwise is left alone, and
only one line feed is taken. -/
def popLineFeed (s : Text) : Text := if s.getLast? = some '\n' then s.dropLast else s

/-- One turn of `extractFencedBlocks`: the lines that are left, the result and the blocks. -/
def extractFencedTurn : List Text × Text × List Fenced →
    Run (Turn (List Text × Text × List Fenced) (Text × List Fenced))
  | ([], result, out) => pure (.done (result, out))
  | (line :: rest, result, out) => do
    match ← fenceOpen line with
    | some (fenceChar, fenceLen, info) =>
      let (body, rest) ← takeFence fenceChar fenceLen [] rest
      pure (.more (rest, result ++ placeholder "FENCE".toList out.length ++ ['\n'],
        out ++ [⟨info, popLineFeed body⟩]))
    | none => pure (.more (rest, result ++ line ++ ['\n'], out))

/-- Pull fenced blocks out so nothing downstream rewrites their contents, line by line, with
a placeholder for each. -/
def extractFencedBlocks (src : Text) : Run (Text × List Fenced) :=
  loop extractFencedTurn ((lines src).length + 1) (lines src, [], [])

/-- A fence that no line of the body closes: backticks, one more than the longest run of
them in the body, and at least three. -/
def fenceFor (body : Text) : Text := List.replicate (max 3 (longestRun '`' body + 1)) '`'

/-- A code block in Markdown, in a fence that is longer than any in its body. -/
def codeBlock (lang body : Text) : Text :=
  fenceFor body ++ lang ++ ['\n'] ++ body ++ ['\n'] ++ fenceFor body

/-- Put back the fenced blocks, each with the first word of its opening line as its language. -/
def restoreFencedBlocks (s : Text) (fenced : List Fenced) : Text :=
  restorePlaceholders s "FENCE".toList
    (fenced.map fun f => codeBlock ((splitWhitespace f.info).headD []) f.body)

/-- The character of a fence takes one byte. -/
theorem fenceOpen_returns (line : Text) :
    Returns (fenceOpen line) fun fence => ∀ f ∈ fence, f.1.utf8Size = 1 := by
  unfold fenceOpen
  dsimp only
  split
  · exact returns_pure (by rintro f ⟨⟩)
  · have hindent : Boundary line (utf8Len line - utf8Len (line.dropWhile (· = ' '))) := by
      refine ⟨line.dropWhile (· = ' '), line.takeWhile (· = ' '),
        List.takeWhile_append_dropWhile.symm, ?_⟩
      have hlen := utf8Len_append (line.takeWhile (· = ' ')) (line.dropWhile (· = ' '))
      rw [List.takeWhile_append_dropWhile] at hlen
      rw [hlen, Nat.add_sub_cancel]
    refine (sliceFrom_returns hindent).bind fun t _ => ?_
    split
    · exact returns_pure (by rintro f ⟨⟩)
    · rename_i c _
      split
      · exact returns_pure (by rintro f ⟨⟩)
      · rename_i hfence
        have hc : c.utf8Size = 1 := by
          by_cases htick : c = '`'
          · rw [htick]
            rfl
          · by_cases htilde : c = '~'
            · rw [htilde]
              rfl
            · exact absurd ⟨htick, htilde⟩ hfence
        split
        · exact returns_pure (by rintro f ⟨⟩)
        · refine (sliceFrom_returns (boundary_leading hc t)).bind fun rest _ => ?_
          split
          · exact returns_pure (by rintro f ⟨⟩)
          · refine returns_pure ?_
            rintro _ ⟨⟩
            exact hc

theorem fenceClose_returns {fenceChar : Char} (hc : fenceChar.utf8Size = 1) (line : Text)
    (fenceLen : ℕ) : Returns (fenceClose line fenceChar fenceLen) fun _ => True := by
  unfold fenceClose
  split
  · exact (sliceFrom_returns (boundary_leading hc _)).bind fun _ _ => returns_pure trivial
  · exact returns_pure trivial

theorem takeFence_returns {fenceChar : Char} (hc : fenceChar.utf8Size = 1) (fenceLen : ℕ)
    (body : Text) (ls : List Text) :
    Returns (takeFence fenceChar fenceLen body ls) fun taken => taken.2.length ≤ ls.length := by
  induction ls generalizing body with
  | nil => exact returns_pure le_rfl
  | cons inner rest ih =>
    refine (fenceClose_returns hc inner fenceLen).bind ?_
    rintro (_ | _) -
    · exact (ih _).mono fun taken h => Nat.le_succ_of_le h
    · exact returns_pure (Nat.le_succ _)

/-- **The fenced blocks of every text are pulled out.** -/
theorem extractFencedBlocks_returns (src : Text) :
    Returns (extractFencedBlocks src) fun _ => True := by
  refine loop_returns (fun _ => True) (fun state => state.1.length) ?_ trivial
    (Nat.lt_succ_self _)
  rintro ⟨_ | ⟨line, rest⟩, result, out⟩ -
  · exact returns_pure trivial
  · refine (fenceOpen_returns line).bind ?_
    rintro (_ | ⟨fenceChar, fenceLen, info⟩) hfence
    · exact returns_pure ⟨trivial, Nat.lt_succ_self _⟩
    · exact (takeFence_returns (hfence _ rfl) fenceLen [] rest).bind fun taken hle =>
        returns_pure ⟨trivial, Nat.lt_succ_of_le hle⟩

/-! ## Comments -/

/-- One turn of `stripHtmlComments`: up to the next comment, which is left out, or to the end. -/
def stripHtmlCommentsTurn (s : Text) : ℕ × Text → Run (Turn (ℕ × Text) Text)
  | (i, out) => do
    match ← findFrom s i "<!--".toList with
    | none =>
      let rest ← sliceFrom s i
      pure (.done (out ++ rest))
    | some opn =>
      let plain ← slice s i opn
      match ← findFrom s (opn + 4) "-->".toList with
      | some close => pure (.more (close + 3, out ++ plain))
      | none => pure (.done (out ++ plain))

/-- Drop comments. One that is not closed swallows the rest. -/
def stripHtmlComments (s : Text) : Run Text :=
  loop (stripHtmlCommentsTurn s) (utf8Len s + 1) (0, [])

theorem stripHtmlComments_returns (s : Text) : Returns (stripHtmlComments s) fun _ => True := by
  refine loop_returns (fun state => Boundary s state.1)
    (fun state => utf8Len s - state.1) ?_ (boundary_zero s) (Nat.lt_succ_self _)
  rintro ⟨i, out⟩ hi
  refine (findFrom_returns hi).bind ?_
  rintro (_ | opn) hfound
  · exact (sliceFrom_returns hi).bind fun _ _ => returns_pure trivial
  · obtain ⟨hle, t, ht⟩ := hfound opn rfl
    have hrest : TailAt s (opn + 4) t := ht.append
    refine (slice_returns hi ht.boundary hle).bind fun plain _ => ?_
    refine (findFrom_returns hrest.boundary).bind ?_
    rintro (_ | close) hclose
    · exact returns_pure trivial
    · obtain ⟨hle', u, hu⟩ := hclose close rfl
      have hend : TailAt s (close + 3) u := hu.append
      have hlen := hend.boundary.le_len
      exact returns_pure ⟨hend.boundary, by dsimp only at hle ⊢; omega⟩

/-! ## Code spans -/

/-- The byte is a backtick, which is a character by itself in UTF-8. -/
def isBacktick (b : UInt8) : Bool := b = '`'.toUInt8

/-- One turn of the search for the run of backticks that closes a code span. -/
def closingRunTurn (s : Text) (run limit j : ℕ) : Run (Turn ℕ (Option ℕ)) :=
  if j < limit then
    if byteAt s j = some '`'.toUInt8 then do
      let rest ← slice s j limit
      if byteRun isBacktick rest 0 = run then pure (.done (some j))
      else pure (.more (j + byteRun isBacktick rest 0))
    else pure (.more (j + 1))
  else pure (.done none)

/-- One turn of `extractMdCodeSpans`: the offset, the result and the spans; text up to the
next backtick is copied at once. -/
def extractMdCodeSpansTurn (s : Text) :
    ℕ × Text × List Text → Run (Turn (ℕ × Text × List Text) (Text × List Text))
  | (i, result, out) =>
    match byteAt s i with
    | none => pure (.done (result, out))
    | some b =>
      if b ≠ '`'.toUInt8 then do
        let next := (← findFrom s i ['`']).getD (utf8Len s)
        let plain ← slice s i next
        pure (.more (next, result ++ plain, out))
      else do
        let rest ← sliceFrom s i
        let run := byteRun isBacktick rest 0
        -- the closing run is as long as the opening one, and on this side of a blank line
        let limit := (← findFrom s (i + run) ['\n', '\n']).getD (utf8Len s)
        match ← loop (closingRunTurn s run limit) (utf8Len s + 1) (i + run) with
        | some j =>
          let span ← slice s i (j + run)
          pure (.more (j + run, result ++ placeholder "MDCODE".toList out.length, out ++ [span]))
        | none =>
          let plain ← slice s i (i + run)
          pure (.more (i + run, result ++ plain, out))

/-- Protect Markdown backtick spans so tag-stripping and entity decoding can't rewrite literal
markup inside them. -/
def extractMdCodeSpans (s : Text) : Run (Text × List Text) :=
  loop (extractMdCodeSpansTurn s) (utf8Len s + 1) (0, [], [])

theorem isBacktick_lt (b : UInt8) (h : isBacktick b = true) : b.toNat < 128 := by
  rw [of_decide_eq_true h]
  decide

/-- A run of backticks at a backtick is not empty. -/
theorem byteRun_isBacktick_pos {s : Text} {i : ℕ} (h : byteAt s i = some '`'.toUInt8) :
    0 < byteRun isBacktick s i := by
  obtain hend | ⟨b, hbyte, hb⟩ := byteRun_end isBacktick (byteAt_lt h).le
  · have hlt := byteAt_lt h
    omega
  · refine Nat.pos_of_ne_zero fun hzero => ?_
    rw [hzero, Nat.add_zero, h] at hbyte
    cases hbyte
    cases hb

/-- **A closing run** lies at or after where the search starts, and ends at a boundary. -/
theorem closingRun_returns {s : Text} {run limit start : ℕ} (hlimit : Boundary s limit)
    (hstart : start ≤ limit) :
    Returns (loop (closingRunTurn s run limit) (utf8Len s + 1) start) fun close =>
      ∀ j ∈ close, start ≤ j ∧ Boundary s (j + run) := by
  have hlen := hlimit.le_len
  refine loop_returns (fun j => start ≤ j) (fun j => limit - j) ?_ le_rfl
    (by omega)
  intro j hj
  unfold closingRunTurn
  split
  · rename_i hlt
    split
    · rename_i htick
      have hbound : Boundary s j := boundary_of_ascii htick (by decide)
      refine (slice_returns hbound hlimit hlt.le).bind ?_
      rintro rest ⟨hrest, after, htail⟩
      have hpos : 0 < byteRun isBacktick rest 0 := by
        refine byteRun_isBacktick_pos ?_
        rw [← byteAt_append (by omega) after, ← htail.byteAt_add, Nat.add_zero, htick]
      split
      · rename_i hrun
        refine returns_pure ?_
        rintro _ ⟨⟩
        have hend : Boundary rest (0 + run) :=
          boundary_byteRun isBacktick_lt (boundary_zero rest) hrun.ge
        rw [Nat.zero_add] at hend
        exact ⟨hj, htail.boundary_add (hend.append after)⟩
      · exact returns_pure ⟨Nat.le_add_right_of_le hj, by omega⟩
    · exact returns_pure ⟨Nat.le_succ_of_le hj, by omega⟩
  · exact returns_pure (by rintro j ⟨⟩)

/-- **The code spans of every text are pulled out.** -/
theorem extractMdCodeSpans_returns (s : Text) :
    Returns (extractMdCodeSpans s) fun _ => True := by
  -- the position is a character boundary throughout and every turn moves it on, so no slice panics
  -- and the loop ends
  refine loop_returns (fun state => Boundary s state.1)
    (fun state => utf8Len s - state.1) ?_ (boundary_zero s) (Nat.lt_succ_self _)
  rintro ⟨i, result, out⟩ hi
  dsimp only at hi
  unfold extractMdCodeSpansTurn
  dsimp only
  cases hbyte : byteAt s i with
  | none => exact returns_pure trivial
  | some b =>
    have hlt := byteAt_lt hbyte
    have hmore : ∀ {k : ℕ} (rest : Text × List Text), i < k → Boundary s k →
        Returns (pure (Turn.more (k, rest))) (Turn.Sat
          (fun state : ℕ × Text × List Text =>
            Boundary s state.1 ∧ utf8Len s - state.1 < utf8Len s - i)
          fun _ : Text × List Text => True) := by
      intro k rest hk hbound
      exact returns_pure ⟨hbound, by dsimp only; omega⟩
    dsimp only
    by_cases hne : b ≠ '`'.toUInt8
    · rw [if_pos hne]
      refine (findFrom_getD_returns hi hbyte rfl hne).bind fun next hnext => ?_
      exact (slice_returns hi hnext.2 hnext.1.le).bind fun plain _ => hmore _ hnext.1 hnext.2
    · rw [if_neg hne]
      refine (sliceFrom_returns hi).bind fun rest hrest => ?_
      rw [hrest.byteRun_eq]
      rw [not_not.mp hne] at hbyte
      have hpos := byteRun_isBacktick_pos hbyte
      have hrun : Boundary s (i + byteRun isBacktick s i) :=
        boundary_byteRun isBacktick_lt hi le_rfl
      generalize byteRun isBacktick s i = run at hpos hrun
      -- a code span does not cross a blank line: the search for its end stops there
      have hlimit : Returns (findFrom s (i + run) ['\n', '\n']) fun found =>
          i + run ≤ found.getD (utf8Len s) ∧ Boundary s (found.getD (utf8Len s)) := by
        refine (findFrom_returns hrun).mono ?_
        rintro (_ | blank) hblank
        · exact ⟨hrun.le_len, boundary_len s⟩
        · obtain ⟨hle, t, ht⟩ := hblank blank rfl
          exact ⟨hle, ht.boundary⟩
      refine hlimit.bind fun found hfound => ?_
      refine (closingRun_returns hfound.2 hfound.1).bind ?_
      rintro (_ | j) hclose
      · exact (slice_returns hi hrun (Nat.le_add_right _ _)).bind fun plain _ =>
          hmore _ (Nat.lt_add_of_pos_right hpos) hrun
      · obtain ⟨hle, hend⟩ := hclose j rfl
        have hij : i < j + run := by omega
        exact (slice_returns hi hend hij.le).bind fun span _ => hmore _ hij hend

/-! ## Elements of code -/

/-- An element of block code that is lifted out: the language it declares, if it does, and
its body. -/
structure HtmlCode where
  lang : Option Text
  body : Text

/-- The language that a class names, by the first of its words that has one of the two prefixes. -/
def langFromClass (cls : Text) : Option Text :=
  (splitWhitespace cls).findSome? fun c =>
    if "language-".toList.isPrefixOf c then some (c.drop 9)
    else if "lang-".toList.isPrefixOf c then some (c.drop 5)
    else none

/-- What is inside an element whose opening tag ends at an offset, and where the element ends. One
that is not closed goes on to the end. -/
def innerOf (s : Text) (openEnd : ℕ) (name : Text) : Run (Text × ℕ) := do
  match ← findMatchingClose s openEnd name with
  | some (cs, ce) =>
    let inner ← slice s openEnd cs
    pure (inner, ce)
  | none =>
    let inner ← sliceFrom s openEnd
    pure (inner, utf8Len s)

/-- The language of a `pre` element, or else that of the `code` tag in it. -/
def codeLang (lang : Option Text) (body : Text) (codeLt codeEnd : ℕ) : Run (Option Text) :=
  match lang with
  | some lang => pure (some lang)
  | none => do
    let codeTag ← slice body codeLt codeEnd
    let cls ← attr codeTag "class".toList
    pure (cls.bind langFromClass)

/-- The code of a `pre` element, without the `code` element that it may be wrapped in, whose class
may name the language. -/
def preCode (tag inner : Text) : Run HtmlCode := do
  let lang := (← attr tag "class".toList).bind langFromClass
  let body := trimMatches (· = '\n') inner
  match ← findOpenTag body 0 "code".toList with
  | none => pure ⟨lang, body⟩
  | some codeLt =>
    let before ← sliceTo body codeLt
    if trim before ≠ [] then pure ⟨lang, body⟩
    else
      match tagEnd body codeLt with
      | none => pure ⟨lang, body⟩
      | some codeEnd =>
        let lang ← codeLang lang body codeLt codeEnd
        let inner ← sliceFrom body codeEnd
        match ← findMatchingClose inner 0 "code".toList with
        | some (cs, _) =>
          let inner ← sliceTo inner cs
          pure ⟨lang, trimMatches (· = '\n') inner⟩
        | none => pure ⟨lang, trimMatches (· = '\n') inner⟩

/-- One turn over the `pre` elements: the offset, the result and the blocks. -/
def protectPreTurn (s : Text) : ℕ × Text × List HtmlCode →
    Run (Turn (ℕ × Text × List HtmlCode) (Text × List HtmlCode))
  | (i, out, pre) => do
    match ← findOpenTag s i "pre".toList with
    | none =>
      let rest ← sliceFrom s i
      pure (.done (out ++ rest, pre))
    | some lt =>
      let plain ← slice s i lt
      match tagEnd s lt with
      | none =>
        let rest ← sliceFrom s lt
        pure (.done (out ++ plain ++ rest, pre))
      | some openEnd =>
        let (body, after) ← innerOf s openEnd "pre".toList
        let tag ← slice s lt openEnd
        let code ← preCode tag body
        pure (.more (after,
          out ++ plain ++ ['\n'] ++ placeholder "PRE".toList pre.length ++ ['\n'], pre ++ [code]))

/-- One turn over the elements of inline code of one name: the offset, the text that is
rebuilt and the code lifted out. -/
def protectInlineTurn (cur tag : Text) : ℕ × Text × List Text →
    Run (Turn (ℕ × Text × List Text) (Text × List Text))
  | (i, rebuilt, out) => do
    match ← findOpenTag cur i tag with
    | none =>
      let rest ← sliceFrom cur i
      pure (.done (rebuilt ++ rest, out))
    | some lt =>
      let plain ← slice cur i lt
      match tagEnd cur lt with
      | none =>
        let rest ← sliceFrom cur lt
        pure (.done (rebuilt ++ plain ++ rest, out))
      | some openEnd =>
        match ← findMatchingClose cur openEnd tag with
        | none =>
          -- an unbalanced tag is left; the stray-tag pass drops it
          let opening ← slice cur lt openEnd
          pure (.more (openEnd, rebuilt ++ plain ++ opening, out))
        | some (cs, ce) =>
          let body ← slice cur openEnd cs
          pure (.more (ce, rebuilt ++ plain ++ placeholder "CODE".toList out.length, out ++ [body]))

/-- Pull the elements of inline code out into placeholders, name by name, each of them from
the start of the text. -/
def protectInlineCode (s : Text) : Run (Text × List Text) :=
  ["code".toList, "kbd".toList, "samp".toList, "tt".toList].foldlM
    (fun state tag =>
      loop (protectInlineTurn state.1 tag) (utf8Len state.1 + 1) (0, [], state.2))
    (s, [])

/-- Pull block code and inline code out into placeholders; block code goes first, as it may
have inline code in it. -/
def protectCodeHtml (s : Text) : Run (Text × List HtmlCode × List Text) := do
  let (out, pre) ← loop (protectPreTurn s) (utf8Len s + 1) (0, [], [])
  let (out, inline) ← protectInlineCode out
  pure (out, pre, inline)

/-- Wrap a text in a backtick span that none of its own backticks close. -/
def backtickSpan (body : Text) : Text :=
  if trim body = [] then []
  else if longestRun '`' body = 0 then ['`'] ++ body ++ ['`']
  else
    let fence := List.replicate (longestRun '`' body + 1) '`'
    fence ++ [' '] ++ body ++ [' '] ++ fence

/-- Put back the code of HTML elements. Its entities are decoded now that the global pass can no
longer touch it. -/
def restoreCodeHtml (s : Text) (pre : List HtmlCode) (inline : List Text) : Run Text := do
  let blocks ← pre.mapM fun p => do
    let body ← decodeEntities p.body
    pure (codeBlock (p.lang.getD []) body)
  let spans ← inline.mapM fun c => do
    let body ← decodeEntities c
    pure (backtickSpan (replaceAll ['\n'] [' '] body))
  pure (restorePlaceholders (restorePlaceholders s "PRE".toList blocks) "CODE".toList spans)

/-- **An element goes on past its opening tag**, to a boundary. -/
theorem innerOf_returns {s : Text} {openEnd : ℕ} (h : Boundary s openEnd) (name : Text) :
    Returns (innerOf s openEnd name) fun inner => openEnd ≤ inner.2 ∧ Boundary s inner.2 := by
  refine (findMatchingClose_returns name h).bind ?_
  rintro (_ | ⟨cs, ce⟩) hclose
  · exact (sliceFrom_returns h).bind fun inner _ => returns_pure ⟨h.le_len, boundary_len s⟩
  · obtain ⟨hle, hlt, hcs, hce⟩ := hclose _ rfl
    exact (slice_returns h hcs.boundary hle).bind fun inner _ => returns_pure ⟨hle.trans hlt.le, hce⟩

theorem codeLang_returns (lang : Option Text) {body : Text} {codeLt codeEnd : ℕ}
    (hlt : Boundary body codeLt) (hend : Boundary body codeEnd) (hle : codeLt ≤ codeEnd) :
    Returns (codeLang lang body codeLt codeEnd) fun _ => True := by
  cases lang with
  | some lang => exact returns_pure trivial
  | none =>
    exact (slice_returns hlt hend hle).bind fun codeTag _ =>
      (attr_returns rfl codeTag).bind fun _ _ => returns_pure trivial

theorem preCode_returns (tag inner : Text) : Returns (preCode tag inner) fun _ => True := by
  refine (attr_returns rfl tag).bind fun cls _ => ?_
  dsimp only
  generalize trimMatches (fun c => decide (c = '\n')) inner = body
  refine (findOpenTag_returns _ (boundary_zero body)).bind ?_
  rintro (_ | codeLt) hcode
  · exact returns_pure trivial
  · obtain ⟨-, hlt⟩ := hcode codeLt rfl
    refine (sliceTo_returns hlt.boundary).bind fun before _ => ?_
    split
    · exact returns_pure trivial
    · split
      · exact returns_pure trivial
      · rename_i codeEnd hend
        obtain ⟨hle, hbound⟩ := tagEnd_eq_some hend
        refine (codeLang_returns _ hlt.boundary hbound (by omega)).bind fun lang _ => ?_
        refine (sliceFrom_returns hbound).bind fun inner _ => ?_
        refine (findMatchingClose_returns _ (boundary_zero inner)).bind ?_
        rintro (_ | ⟨cs, ce⟩) hclose
        · exact returns_pure trivial
        · obtain ⟨-, -, hcs, -⟩ := hclose _ rfl
          exact (sliceTo_returns hcs.boundary).bind fun _ _ => returns_pure trivial

theorem protectPre_returns (s : Text) :
    Returns (loop (protectPreTurn s) (utf8Len s + 1) (0, [], [])) fun _ => True := by
  refine loop_returns (fun state => Boundary s state.1)
    (fun state => utf8Len s - state.1) ?_ (boundary_zero s) (Nat.lt_succ_self _)
  rintro ⟨i, out, pre⟩ hi
  refine (findOpenTag_returns _ hi).bind ?_
  rintro (_ | lt) hfound
  · exact (sliceFrom_returns hi).bind fun _ _ => returns_pure trivial
  · obtain ⟨hle, hlt⟩ := hfound lt rfl
    have hlen := hlt.lt_len
    refine (slice_returns hi hlt.boundary hle).bind fun plain _ => ?_
    split
    · exact (sliceFrom_returns hlt.boundary).bind fun _ _ => returns_pure trivial
    · rename_i openEnd hend
      obtain ⟨hle', hbound⟩ := tagEnd_eq_some hend
      refine (innerOf_returns hbound _).bind ?_
      rintro ⟨body, after⟩ ⟨hafter, hbound'⟩
      refine (slice_returns hlt.boundary hbound (by omega)).bind fun tag _ => ?_
      refine (preCode_returns tag body).bind fun code _ => ?_
      exact returns_pure ⟨hbound', by dsimp only at hle hafter ⊢; omega⟩

theorem protectInlineCode_returns (s : Text) :
    Returns (protectInlineCode s) fun _ => True := by
  refine foldlM_returns (fun _ => True) ?_ trivial
  rintro ⟨cur, out⟩ tag - -
  refine loop_returns (fun state => Boundary cur state.1)
    (fun state => utf8Len cur - state.1) ?_ (boundary_zero cur) (Nat.lt_succ_self _)
  rintro ⟨i, rebuilt, out⟩ hi
  refine (findOpenTag_returns _ hi).bind ?_
  rintro (_ | lt) hfound
  · exact (sliceFrom_returns hi).bind fun _ _ => returns_pure trivial
  · obtain ⟨hle, hlt⟩ := hfound lt rfl
    have hlen := hlt.lt_len
    refine (slice_returns hi hlt.boundary hle).bind fun plain _ => ?_
    split
    · exact (sliceFrom_returns hlt.boundary).bind fun _ _ => returns_pure trivial
    · rename_i openEnd hend
      obtain ⟨hle', hbound⟩ := tagEnd_eq_some hend
      refine (findMatchingClose_returns tag hbound).bind ?_
      rintro (_ | ⟨cs, ce⟩) hclose
      · refine (slice_returns hlt.boundary hbound (by omega)).bind fun _ _ => ?_
        exact returns_pure ⟨hbound, by dsimp only at hle ⊢; omega⟩
      · obtain ⟨hle'', hlt'', hcs, hce⟩ := hclose _ rfl
        refine (slice_returns hbound hcs.boundary hle'').bind fun _ _ => ?_
        exact returns_pure ⟨hce, by dsimp only at hle hlt'' ⊢; omega⟩

/-- **The HTML elements of code of every text are pulled out.** -/
theorem protectCodeHtml_returns (s : Text) : Returns (protectCodeHtml s) fun _ => True :=
  (protectPre_returns s).bind fun pre _ =>
    (protectInlineCode_returns pre.1).bind fun _ _ => returns_pure trivial

theorem restoreCodeHtml_returns (s : Text) (pre : List HtmlCode) (inline : List Text) :
    Returns (restoreCodeHtml s pre inline) fun _ => True := by
  have hblocks := mapM_returns (l := pre) fun (p : HtmlCode) _ =>
    (decodeEntities_returns p.body).bind fun body _ =>
      returns_pure (a := codeBlock (p.lang.getD []) body) trivial
  have hspans := mapM_returns (l := inline) fun (c : Text) _ =>
    (decodeEntities_returns c).bind fun body _ =>
      returns_pure (a := backtickSpan (replaceAll ['\n'] [' '] body)) trivial
  exact hblocks.bind fun _ _ => hspans.bind fun _ _ => returns_pure trivial

/-! ## Blank lines -/

/-- Lines without blanks at their ends, and one blank line where several were. -/
def collapseLines (blanks : ℕ) : List Text → Text
  | [] => []
  | line :: rest =>
    if trimEnd line = [] then
      if 1 < blanks + 1 then collapseLines (blanks + 1) rest
      else '\n' :: collapseLines (blanks + 1) rest
    else trimEnd line ++ '\n' :: collapseLines 0 rest

/-- At most one blank line in a row, and none at the ends. -/
def collapseBlankLines (s : Text) : Text :=
  trimMatches (· = '\n') (collapseLines 0 (lines s))

end Readme

end Atlas
