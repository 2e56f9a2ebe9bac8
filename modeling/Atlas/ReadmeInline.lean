import Atlas.ReadmeTables

/-!
# Inline Markdown of a model card

A line of prose is walked character by character, with indices into the array of its characters.
What a construct holds is walked again, in a style of its own; the nesting is capped. A construct
is searched in the array, or, where it has brackets, in a text made of a window of it, by byte
offsets.

Every walk goes forward and returns, on every text: one lemma for each kind of construct says
that it consumes input (`walkChar_returns`), and `inlineSpans_returns` puts them together.
-/

namespace Atlas

namespace Readme

open Text Run

/-! ## Spans -/

/-- One inline run of styled text, the unit a line of a block is made of. -/
structure Span where
  text : Text
  bold : Bool := false
  italic : Bool := false
  code : Bool := false
  strike : Bool := false
  link : Option Text := none
  deriving DecidableEq

/-- The style of a text, as the marks around it have set it so far. -/
structure Style where
  bold : Bool := false
  italic : Bool := false
  strike : Bool := false
  link : Option Text := none

/-- A text in a style; code is never styled this way. -/
def Style.span (style : Style) (text : Text) : Span :=
  { text, bold := style.bold, italic := style.italic, strike := style.strike, link := style.link }

/-- Append a span, to the last one if they are alike; code is never merged with what stands
before it, and an empty span is dropped. -/
def pushCoalesced (out : List Span) (s : Span) : List Span :=
  if s.text = [] then out
  else
    match out.getLast? with
    | some last =>
      if { last with text := s.text } = s ∧ last.code = false then
        out.dropLast ++ [{ last with text := last.text ++ s.text }]
      else out ++ [s]
    | none => [s]

/-- Spans without empty ones, alike ones together, so that a style begins a new span only
where it changes. -/
def coalesce (spans : List Span) : List Span := spans.foldl pushCoalesced []

/-! ## Searching -/

/-- The punctuation that a backslash escapes; before any other character the backslash is
itself. -/
def isMdPunct (c : Char) : Bool := "\\`*_\x7b\x7d[]()#+-.!|~<>".toList.contains c

/-- How long the run of a character at an index is, which must not be past the end of the text. -/
def runLen (chars : Text) (i : ℕ) (c : Char) : Run ℕ := do
  let rest ← charsFrom chars i
  pure (leading c rest)

/-- One turn of `findCodeClose`: a run of backticks is the one sought, or is passed over whole. -/
def findCodeCloseTurn (chars : Text) (n i : ℕ) : Run (Turn ℕ (Option ℕ)) :=
  match chars[i]? with
  | none => pure (.done none)
  | some ch =>
    if ch = '`' then do
      let r ← runLen chars i '`'
      if r = n then pure (.done (some i)) else pure (.more (i + r))
    else pure (.more (i + 1))

/-- The closing run of exactly so many backticks, from an index on, or nothing. -/
def findCodeClose (chars : Text) (start n : ℕ) : Run (Option ℕ) :=
  loop (findCodeCloseTurn chars n) (chars.length + 1) start

/-- A text without one space of padding, if both ends have it. -/
def trimCodePadding (s : Text) : Run Text :=
  if 2 ≤ utf8Len s ∧ s.head? = some ' ' ∧ s.getLast? = some ' ' ∧ trim s ≠ [] then
    slice s 1 (utf8Len s - 1)
  else pure s

/-- The loop over the characters from an offset on, within so many openers. -/
def findBalancedFrom (opn close : Char) : ℕ → ℕ → Text → Option ℕ
  | _, _, [] => none
  | depth, idx, ch :: s =>
    if ch = opn then findBalancedFrom opn close (depth + 1) (idx + ch.utf8Size) s
    else if ch = close then
      if depth = 0 then some idx
      else findBalancedFrom opn close (depth - 1) (idx + ch.utf8Size) s
    else findBalancedFrom opn close depth (idx + ch.utf8Size) s

/-- The byte offset of the closer of a construct, from inside of it. -/
def findBalanced (s : Text) (opn close : Char) : Option ℕ := findBalancedFrom opn close 0 0 s

/-- No real link outgrows this, so the search for its end goes no further. -/
def WINDOW : ℕ := 8192

/-- `[text](target)` at an index: its text, its target and the index after it. -/
def parseBracketConstruct (chars : Text) (i : ℕ) : Run (Option (Text × Text × ℕ)) := do
  let rest ← charsBetween chars (i + 1) (min (i + 1 + WINDOW) chars.length)
  match findBalanced rest '[' ']' with
  | none => pure none
  | some close =>
    let text ← sliceTo rest close
    let afterBracket := i + 1 + text.length + 1
    if chars[afterBracket]? ≠ some '(' then pure none
    else
      let parenRest ←
        charsBetween chars (afterBracket + 1) (min (afterBracket + 1 + WINDOW) chars.length)
      match findBalanced parenRest '(' ')' with
      | none => pure none
      | some e =>
        let target ← sliceTo parenRest e
        pure (some (text, target, afterBracket + 1 + target.length + 1))

/-- Drop an optional title after a URL, which stands in quotes behind whitespace. -/
def stripLinkTitle (target : Text) : Text :=
  let t := trim target
  match t.dropWhile fun c => !isWhitespace c with
  | [] => t
  | _ :: rest =>
    if (trim rest).head? = some '"' ∨ (trim rest).head? = some '\u0027' then
      t.takeWhile fun c => !isWhitespace c
    else t

/-- One turn of `findEmphasisClose`: a run of the mark may close the emphasis, or is passed
over. -/
def findEmphasisCloseTurn (chars : Text) (start : ℕ) (c : Char) (n i : ℕ) :
    Run (Turn ℕ (Option ℕ)) :=
  match chars[i]? with
  | none => pure (.done none)
  | some ch =>
    if ch = c then do
      let r ← runLen chars i c
      if n ≤ r ∧ start < i ∧ (chars[i - 1]?).all (fun p => !isWhitespace p) then
        pure (.done (some i))
      else pure (.more (i + r))
    else pure (.more (i + 1))

/-- The run that closes an emphasis of so many marks. Its opener is followed by no space. -/
def findEmphasisClose (chars : Text) (start : ℕ) (c : Char) (n : ℕ) : Run (Option ℕ) :=
  if (chars[start]?).all isWhitespace then pure none
  else loop (findEmphasisCloseTurn chars start c n) (chars.length + 1) start

/-- The widest emphasis of so many marks or less that is closed, and where. -/
def findEmphasis (chars : Text) (i : ℕ) (c : Char) : ℕ → Run (Option (ℕ × ℕ))
  | 0 => pure none
  | n + 1 => do
    match ← findEmphasisClose chars (i + (n + 1)) c (n + 1) with
    | some j => pure (some (n + 1, j))
    | none => findEmphasis chars i c n

/-- One turn of `findSeq`, which moves on by one character. -/
def findSeqTurn (chars seq : Text) (i : ℕ) : Run (Turn ℕ (Option ℕ)) :=
  if i + seq.length ≤ chars.length then do
    let piece ← charsBetween chars i (i + seq.length)
    if piece = seq then pure (.done (some i)) else pure (.more (i + 1))
  else pure (.done none)

/-- The next occurrence of a sequence of characters, from an index on; the empty one occurs
nowhere. -/
def findSeq (chars : Text) (start : ℕ) (seq : Text) : Run (Option ℕ) :=
  if seq = [] then pure none else loop (findSeqTurn chars seq) (chars.length + 1) start

/-- A word may start at the index: at the very beginning, after whitespace, or after an
opening mark. -/
def atWordStart (chars : Text) (i : ℕ) : Bool :=
  i = 0 || (chars[i - 1]?).any fun p => isWhitespace p || ['(', '[', ',', ':', ';'].contains p

/-- A text starts like an address, of either of the two schemes. -/
def startsWithHttp (s : Text) : Bool :=
  "http://".toList.isPrefixOf s || "https://".toList.isPrefixOf s

/-- An address starts at the index, as its first eight characters tell. -/
def isBareUrl (chars : Text) (i : ℕ) : Run Bool := do
  let rest ← charsFrom chars i
  pure (startsWithHttp (rest.take 8))

/-- What comes before and after the last occurrence of a pattern, which is the first one of
the reversed text, reversed back. -/
def rsplitOnce (pat s : Text) : Option (Text × Text) :=
  (splitOnce pat.reverse s.reverse).map fun parts => (parts.2.reverse, parts.1.reverse)

/-- The address of an image, and the width that it may end with. -/
def peelWidth (src : Text) : Text × Option ℕ :=
  match rsplitOnce widthMark src with
  | some (s, w) => (s, parseU32 w)
  | none => (src, none)

variable {chars : Text} {i n : ℕ} {c : Char}

theorem lt_length_of_getElem? (h : chars[i]? = some c) : i < chars.length :=
  (List.getElem?_eq_some_iff.mp h).1

theorem runLen_returns (hi : i ≤ chars.length) (c : Char) :
    Returns (runLen chars i c) fun r =>
      i + r ≤ chars.length ∧ (chars[i]? = some c → 0 < r) := by
  refine (charsFrom_returns hi).bind ?_
  rintro _ rfl
  refine returns_pure ⟨?_, fun hc => ?_⟩
  · have hle := (List.takeWhile_prefix (fun d => decide (d = c)) (l := chars.drop i)).length_le
    rw [List.length_drop] at hle
    unfold leading
    omega
  · have hdrop : chars.drop i = c :: chars.drop (i + 1) := by
      rw [List.drop_eq_getElem_cons (lt_length_of_getElem? hc)]
      exact congrArg (· :: _) (List.getElem?_eq_some_iff.mp hc).2
    unfold leading
    rw [hdrop, List.takeWhile_cons_of_pos (by exact decide_eq_true rfl)]
    exact Nat.succ_pos _

theorem findCodeClose_returns (chars : Text) (start n : ℕ) :
    Returns (findCodeClose chars start n) fun found =>
      ∀ j ∈ found, start ≤ j ∧ j + n ≤ chars.length := by
  refine loop_returns (fun i => start ≤ i) (fun i => chars.length - i) ?_ le_rfl
    (by omega)
  intro i hi
  unfold findCodeCloseTurn
  cases hch : chars[i]? with
  | none => exact returns_pure (by rintro j ⟨⟩)
  | some ch =>
    have hlt := lt_length_of_getElem? hch
    dsimp only
    split
    · rename_i htick
      refine (runLen_returns hlt.le '`').bind ?_
      rintro r ⟨hle, hpos⟩
      have hr : 0 < r := hpos (by rw [hch, htick])
      split
      · rename_i hrn
        refine returns_pure ?_
        rintro _ ⟨⟩
        exact ⟨hi, hrn ▸ hle⟩
      · exact returns_pure ⟨Nat.le_add_right_of_le hi, by omega⟩
    · exact returns_pure ⟨Nat.le_succ_of_le hi, by omega⟩

theorem trimCodePadding_returns (s : Text) : Returns (trimCodePadding s) fun _ => True := by
  unfold trimCodePadding
  split
  · rename_i hpadded
    obtain ⟨hlen, hhead, hlast, -⟩ := hpadded
    obtain ⟨t, rfl⟩ := List.head?_eq_some_iff.mp hhead
    obtain ⟨u, hu⟩ := List.getLast?_eq_some_iff.mp hlast
    have hstart : Boundary (' ' :: t) 1 := (tailAt_append [' '] t).boundary
    have hend : Boundary (' ' :: t) (utf8Len (' ' :: t) - 1) := by
      rw [hu, utf8Len_append, show utf8Len [' '] = 1 from rfl, Nat.add_sub_cancel]
      exact (tailAt_append u [' ']).boundary
    exact (slice_returns hstart hend (by omega)).mono fun _ _ => trivial
  · exact returns_pure trivial

theorem findBalancedFrom_eq_some {opn close : Char} {depth idx e : ℕ} {s : Text}
    (h : findBalancedFrom opn close depth idx s = some e) :
    ∃ k t, e = idx + k ∧ TailAt s k (close :: t) := by
  induction s generalizing depth idx with
  | nil => cases h
  | cons ch s ih =>
    have hlater : ∀ {d}, findBalancedFrom opn close d (idx + ch.utf8Size) s = some e →
        ∃ k t, e = idx + k ∧ TailAt (ch :: s) k (close :: t) := by
      intro d hd
      obtain ⟨k, t, rfl, ht⟩ := ih hd
      exact ⟨ch.utf8Size + k, t, Nat.add_assoc _ _ _, TailAt.add (tailAt_append [ch] s) ht⟩
    unfold findBalancedFrom at h
    split at h
    · exact hlater h
    · split at h
      · rename_i hclose
        split at h
        · cases h
          exact ⟨0, s, rfl, hclose ▸ tailAt_zero _⟩
        · exact hlater h
      · exact hlater h

/-- **A construct is closed** by its closer. -/
theorem findBalanced_eq_some {opn close : Char} {s : Text} {e : ℕ}
    (h : findBalanced s opn close = some e) : ∃ t, TailAt s e (close :: t) := by
  obtain ⟨k, t, rfl, ht⟩ := findBalancedFrom_eq_some h
  rw [Nat.zero_add]
  exact ⟨t, ht⟩

theorem parseBracketConstruct_returns (hi : i < chars.length) :
    Returns (parseBracketConstruct chars i) fun found => ∀ link ∈ found, i < link.2.2 := by
  refine (charsBetween_returns (by omega) (Nat.min_le_right _ _)).bind fun rest _ => ?_
  dsimp only
  split
  · exact returns_pure (by rintro link ⟨⟩)
  · rename_i close hclose
    obtain ⟨t, ht⟩ := findBalanced_eq_some hclose
    refine (sliceTo_returns ht.boundary).bind fun text _ => ?_
    split
    · exact returns_pure (by rintro link ⟨⟩)
    · rename_i hparen
      have hlt := lt_length_of_getElem? (not_not.mp hparen)
      refine (charsBetween_returns (by omega) (Nat.min_le_right _ _)).bind fun parenRest _ => ?_
      split
      · exact returns_pure (by rintro link ⟨⟩)
      · rename_i e hend
        obtain ⟨u, hu⟩ := findBalanced_eq_some hend
        refine (sliceTo_returns hu.boundary).bind fun target _ => returns_pure ?_
        rintro _ ⟨⟩
        dsimp only
        omega

theorem findEmphasisClose_returns (chars : Text) (start : ℕ) (c : Char) (n : ℕ) :
    Returns (findEmphasisClose chars start c n) fun found =>
      ∀ j ∈ found, start ≤ j ∧ j + n ≤ chars.length := by
  unfold findEmphasisClose
  split
  · exact returns_pure (by rintro j ⟨⟩)
  refine loop_returns (fun i => start ≤ i) (fun i => chars.length - i) ?_ le_rfl
    (by omega)
  intro i hi
  unfold findEmphasisCloseTurn
  cases hch : chars[i]? with
  | none => exact returns_pure (by rintro j ⟨⟩)
  | some ch =>
    have hlt := lt_length_of_getElem? hch
    dsimp only
    split
    · rename_i hc
      refine (runLen_returns hlt.le c).bind ?_
      rintro r ⟨hle, hpos⟩
      have hr : 0 < r := hpos (by rw [hch, hc])
      split
      · rename_i hclose
        refine returns_pure ?_
        rintro _ ⟨⟩
        have hn := hclose.1
        exact ⟨hi, by omega⟩
      · exact returns_pure ⟨Nat.le_add_right_of_le hi, by omega⟩
    · exact returns_pure ⟨Nat.le_succ_of_le hi, by omega⟩

theorem findEmphasis_returns (chars : Text) (i : ℕ) (c : Char) (n : ℕ) :
    Returns (findEmphasis chars i c n) fun found =>
      ∀ m ∈ found, 0 < m.1 ∧ i + m.1 ≤ m.2 ∧ m.2 + m.1 ≤ chars.length := by
  induction n with
  | zero => exact returns_pure (by rintro m ⟨⟩)
  | succ n ih =>
    refine (findEmphasisClose_returns chars (i + (n + 1)) c (n + 1)).bind ?_
    rintro (_ | j) hfound
    · exact ih
    · refine returns_pure ?_
      rintro _ ⟨⟩
      exact ⟨Nat.succ_pos n, hfound j rfl⟩

theorem findSeq_returns (chars : Text) (start : ℕ) (seq : Text) :
    Returns (findSeq chars start seq) fun found =>
      ∀ j ∈ found, start ≤ j ∧ j + seq.length ≤ chars.length := by
  unfold findSeq
  split
  · exact returns_pure (by rintro j ⟨⟩)
  rename_i hseq
  have hpos := List.length_pos_iff.mpr hseq
  refine loop_returns (fun i => start ≤ i) (fun i => chars.length - i) ?_ le_rfl
    (by omega)
  intro i hi
  unfold findSeqTurn
  split
  · rename_i hle
    refine (charsBetween_returns (Nat.le_add_right _ _) hle).bind fun piece _ => ?_
    split
    · refine returns_pure ?_
      rintro _ ⟨⟩
      exact ⟨hi, hle⟩
    · exact returns_pure ⟨Nat.le_succ_of_le hi, by omega⟩
  · exact returns_pure (by rintro j ⟨⟩)

/-! ## The walk -/

/-- Where a walk is: the index, the literal text since the last span, and the spans. -/
structure Walk where
  i : ℕ
  lit : Text
  out : List Span

/-- Make a span of the literal text, if there is any, in the style it has. -/
def Walk.flush (w : Walk) (style : Style) : Walk :=
  { w with lit := [], out := if w.lit = [] then w.out else w.out ++ [style.span w.lit] }

/-- Take characters literally, and go on behind them. -/
def Walk.literal (w : Walk) (text : Text) (n : ℕ) : Walk :=
  { w with i := w.i + n, lit := w.lit ++ text }

/-- What walks the text that a construct holds, in a style, and appends its spans. -/
abbrev Deeper : Type := Text → Style → List Span → Run (List Span)

/-- A code span, or the backticks of none where no run of the same length closes it. -/
def walkCode (chars : Text) (style : Style) (w : Walk) : Run Walk := do
  let run ← runLen chars w.i '`'
  match ← findCodeClose chars (w.i + run) run with
  | some j =>
    let body ← charsBetween chars (w.i + run) j
    let body ← trimCodePadding body
    let w := w.flush style
    pure { w with i := j + run, out := w.out ++ [{ style.span body with code := true }] }
  | none => pure (w.literal (List.replicate run '`') run)

/-- An image within a line. Without a text it renders as nothing. -/
def walkImage (chars : Text) (style : Style) (w : Walk) : Run Walk := do
  match ← parseBracketConstruct chars (w.i + 1) with
  | some (alt, target, next) =>
    let w := w.flush style
    let src := (peelWidth (trim target)).1
    if trim alt ≠ [] then
      pure { w with i := next, out := w.out ++ [{ style with link := some src }.span (trim alt)] }
    else pure { w with i := next }
  | none => pure (w.literal ['!'] 1)

/-- A link, whose text is walked in its style; a bracket that starts no link is kept as a
character. -/
def walkLink (deeper : Deeper) (chars : Text) (style : Style) (w : Walk) : Run Walk := do
  match ← parseBracketConstruct chars w.i with
  | some (inner, target, next) =>
    let w := w.flush style
    let out ← deeper inner { style with link := some (stripLinkTitle target) } w.out
    pure { w with i := next, out }
  | none => pure (w.literal ['['] 1)

/-- The style of what so many marks of emphasis hold: one is italic, two are bold, and more
than two are both. -/
def Style.emphasized (style : Style) : ℕ → Style
  | 1 => { style with italic := true }
  | 2 => { style with bold := true }
  | _ => { style with bold := true, italic := true }

/-- `_emphasis_` only applies at word boundaries; `isAlphanumeric` is the table of the standard
library. -/
def underscoreBoundary (isAlphanumeric : Char → Bool) (chars : Text) (opn close n : ℕ) : Bool :=
  (opn = 0 || (chars[opn - 1]?).all fun p => !isAlphanumeric p) &&
    (chars[close + n]?).all fun p => !isAlphanumeric p

/-- Emphasis, as wide as it is closed, or the marks of none. -/
def walkEmphasis (isAlphanumeric : Char → Bool) (deeper : Deeper) (chars : Text) (style : Style)
    (w : Walk) (c : Char) : Run Walk := do
  let run ← runLen chars w.i c
  let matched := (← findEmphasis chars w.i c (min run 3)).filter fun m =>
    c ≠ '_' || underscoreBoundary isAlphanumeric chars w.i m.2 m.1
  match matched with
  | some (n, j) =>
    let inner ← charsBetween chars (w.i + n) j
    let w := w.flush style
    let out ← deeper inner (style.emphasized n) w.out
    pure { w with i := j + n, out }
  | none => pure (w.literal (List.replicate run c) run)

/-- A text that is struck through, or the two tildes where no others follow. -/
def walkStrike (deeper : Deeper) (chars : Text) (style : Style) (w : Walk) : Run Walk := do
  match ← findSeq chars (w.i + 2) ['~', '~'] with
  | some j =>
    let inner ← charsBetween chars (w.i + 2) j
    let w := w.flush style
    let out ← deeper inner { style with strike := true } w.out
    pure { w with i := j + 2, out }
  | none => pure (w.literal ['~'] 1)

/-- `<https://…>`, and where it goes on: the offset of the `>` is one of bytes. -/
def walkAutolink (chars : Text) (style : Style) (w : Walk) : Run Walk := do
  let rest ← charsFrom chars (w.i + 1)
  match if startsWithHttp rest then find ['>'] rest else none with
  | some gt =>
    let url ← sliceTo rest gt
    if url.any isWhitespace then pure (w.literal ['<'] 1)
    else
      let w := w.flush style
      pure { w with
        i := w.i + (1 + gt + 1), out := w.out ++ [{ style with link := some url }.span url] }
  | none => pure (w.literal ['<'] 1)

/-- An address in prose, without the punctuation at its end; an address with nothing after
its scheme is kept as text. -/
def walkBareUrl (chars : Text) (style : Style) (w : Walk) : Run Walk := do
  let len := ((chars.drop w.i).takeWhile fun c => !isWhitespace c && c ≠ '<').length
  let url ← charsBetween chars w.i (w.i + len)
  let url := url.rdropWhile fun c => ['.', ',', ';', ':', '!', '?', ')'].contains c
  if utf8Len "https://x".toList < utf8Len url then
    let w := w.flush style
    pure { w with
      i := w.i + url.length, out := w.out ++ [{ style with link := some url }.span url] }
  else pure (w.literal ['h'] 1)

/-- What starts with the character `c` at the index: an escape, code, an image, a link,
emphasis, an address or a plain character. -/
def walkChar (isAlphanumeric : Char → Bool) (deeper : Deeper) (chars : Text) (style : Style)
    (w : Walk) (c : Char) : Run Walk := do
  if c = '\\' ∧ (chars[w.i + 1]?).any isMdPunct then
    pure (w.literal (chars[w.i + 1]?).toList 2)
  else if c = '`' then walkCode chars style w
  else if c = '!' ∧ chars[w.i + 1]? = some '[' then walkImage chars style w
  else if c = '[' then walkLink deeper chars style w
  else if c = '*' ∨ c = '_' then walkEmphasis isAlphanumeric deeper chars style w c
  else if c = '~' then
    if 2 ≤ (← runLen chars w.i '~') then walkStrike deeper chars style w
    else pure (w.literal ['~'] 1)
  else if c = '<' then walkAutolink chars style w
  else if c = 'h' then
    if style.link = none ∧ atWordStart chars w.i ∧ (← isBareUrl chars w.i) then
      walkBareUrl chars style w
    else pure (w.literal ['h'] 1)
  else if c = OBJ then pure (w.literal [] 1)
  else if c = ' ' ∨ c = '\t' then
    -- whitespace runs in prose are one space
    pure (w.literal (if w.lit.getLast? = some ' ' then [] else [' ']) 1)
  else pure (w.literal [c] 1)

/-- One turn of `walkInline`, which looks at the character at its index and takes what
begins there. -/
def walkInlineTurn (isAlphanumeric : Char → Bool) (deeper : Deeper) (chars : Text) (style : Style)
    (w : Walk) : Run (Turn Walk (List Span)) :=
  match chars[w.i]? with
  | none => pure (.done (w.flush style).out)
  | some c => do
    let w ← walkChar isAlphanumeric deeper chars style w c
    pure (.more w)

/-- Walk a text in a style, with constructs nested so many levels deeper at most. -/
def walkInline (isAlphanumeric : Char → Bool) : ℕ → Deeper
  | 0, text, style, out => pure (out ++ [style.span text])
  | nest + 1, text, style, out =>
    loop (walkInlineTurn isAlphanumeric (walkInline isAlphanumeric nest) text style)
      (text.length + 1) ⟨0, [], out⟩

/-- Parse inline Markdown into styled spans, as deeply nested as the cap allows. -/
def inlineSpans (isAlphanumeric : Char → Bool) (text : Text) : Run (List Span) := do
  let out ← walkInline isAlphanumeric MAX_NEST text {} []
  pure (coalesce out)

/-! ## Every walk goes forward -/

variable {deeper : Deeper} {style : Style} {w : Walk}

theorem literal_forward (w : Walk) (text : Text) (hn : 0 < n) :
    Returns (pure (w.literal text n)) fun w' : Walk => w.i < w'.i :=
  returns_pure (Nat.lt_add_of_pos_right hn)

theorem walkCode_returns (style : Style) (hc : chars[w.i]? = some '`') :
    Returns (walkCode chars style w) fun w' => w.i < w'.i := by
  refine (runLen_returns (lt_length_of_getElem? hc).le '`').bind ?_
  rintro run ⟨hle, hpos⟩
  refine (findCodeClose_returns chars (w.i + run) run).bind ?_
  rintro (_ | j) hfound
  · exact literal_forward w _ (hpos hc)
  · obtain ⟨hge, hend⟩ := hfound j rfl
    refine (charsBetween_returns hge (by omega)).bind fun body _ => ?_
    refine (trimCodePadding_returns body).bind fun body _ => returns_pure ?_
    have hrun := hpos hc
    show w.i < j + run
    omega

theorem walkImage_returns (style : Style) (hopen : chars[w.i + 1]? = some '[') :
    Returns (walkImage chars style w) fun w' => w.i < w'.i := by
  refine (parseBracketConstruct_returns (lt_length_of_getElem? hopen)).bind ?_
  rintro (_ | ⟨alt, target, next⟩) hfound
  · exact literal_forward w _ Nat.one_pos
  · have hnext : w.i + 1 < next := hfound _ rfl
    dsimp only
    split
    · exact returns_pure (Nat.lt_of_succ_lt hnext)
    · exact returns_pure (Nat.lt_of_succ_lt hnext)

theorem walkLink_returns (hdeeper : ∀ t st out, Returns (deeper t st out) fun _ => True)
    (style : Style) (hlt : w.i < chars.length) :
    Returns (walkLink deeper chars style w) fun w' => w.i < w'.i := by
  refine (parseBracketConstruct_returns hlt).bind ?_
  rintro (_ | ⟨inner, target, next⟩) hfound
  · exact literal_forward w _ Nat.one_pos
  · exact (hdeeper _ _ _).bind fun out _ => returns_pure (hfound _ rfl)

theorem walkEmphasis_returns (isAlphanumeric : Char → Bool)
    (hdeeper : ∀ t st out, Returns (deeper t st out) fun _ => True) (style : Style)
    (hc : chars[w.i]? = some c) :
    Returns (walkEmphasis isAlphanumeric deeper chars style w c) fun w' => w.i < w'.i := by
  refine (runLen_returns (lt_length_of_getElem? hc).le c).bind ?_
  rintro run ⟨hle, hpos⟩
  refine (findEmphasis_returns chars w.i c (min run 3)).bind fun found hfound => ?_
  dsimp only
  split
  · rename_i n j hmatched
    obtain ⟨hn, hij, hj⟩ := hfound (n, j) (Option.eq_some_of_filter_eq_some hmatched)
    dsimp only at hn hij hj
    refine (charsBetween_returns hij (by omega)).bind fun inner _ => ?_
    refine (hdeeper _ _ _).bind fun out _ => returns_pure ?_
    show w.i < j + n
    omega
  · exact literal_forward w _ (hpos hc)

theorem walkStrike_returns (hdeeper : ∀ t st out, Returns (deeper t st out) fun _ => True)
    (chars : Text) (style : Style) (w : Walk) :
    Returns (walkStrike deeper chars style w) fun w' => w.i < w'.i := by
  refine (findSeq_returns chars (w.i + 2) ['~', '~']).bind ?_
  rintro (_ | j) hfound
  · exact literal_forward w _ Nat.one_pos
  · obtain ⟨hge, hend⟩ : w.i + 2 ≤ j ∧ j + 2 ≤ chars.length := hfound j rfl
    refine (charsBetween_returns hge (by omega)).bind fun inner _ => ?_
    refine (hdeeper _ _ _).bind fun out _ => returns_pure ?_
    show w.i < j + 2
    omega

theorem walkAutolink_returns (style : Style) (hlt : w.i < chars.length) :
    Returns (walkAutolink chars style w) fun w' => w.i < w'.i := by
  refine (charsFrom_returns hlt).bind fun rest _ => ?_
  dsimp only
  split
  · rename_i gt hgt
    have hfind : find ['>'] rest = some gt := by
      split at hgt
      · exact hgt
      · cases hgt
    obtain ⟨t, ht⟩ := find_tailAt hfind
    refine (sliceTo_returns ht.boundary).bind fun url _ => ?_
    split
    · exact literal_forward w _ Nat.one_pos
    · refine returns_pure ?_
      show w.i < w.i + (1 + gt + 1)
      omega
  · exact literal_forward w _ Nat.one_pos

theorem walkBareUrl_returns (style : Style) (hlt : w.i < chars.length) :
    Returns (walkBareUrl chars style w) fun w' => w.i < w'.i := by
  have hlen : w.i + ((chars.drop w.i).takeWhile fun c => !isWhitespace c && c ≠ '<').length ≤
      chars.length := by
    have hle := (List.takeWhile_prefix (fun c => !isWhitespace c && decide (c ≠ '<'))
      (l := chars.drop w.i)).length_le
    rw [List.length_drop] at hle
    omega
  refine (charsBetween_returns (Nat.le_add_right _ _) hlen).bind fun url _ => ?_
  dsimp only
  split
  · rename_i hlong
    refine returns_pure (Nat.lt_add_of_pos_right (List.length_pos_iff.mpr ?_))
    intro hnil
    rw [hnil] at hlong
    exact absurd hlong (Nat.not_lt_zero _)
  · exact literal_forward w _ Nat.one_pos

/-- **What starts at a character is walked**, and the walk goes forward. -/
theorem walkChar_returns (isAlphanumeric : Char → Bool)
    (hdeeper : ∀ t st out, Returns (deeper t st out) fun _ => True) (style : Style)
    (hc : chars[w.i]? = some c) :
    Returns (walkChar isAlphanumeric deeper chars style w c) fun w' => w.i < w'.i := by
  have hlt := lt_length_of_getElem? hc
  unfold walkChar
  refine .ite (fun _ => literal_forward w _ Nat.two_pos) fun _ => ?_
  refine .ite (fun htick => walkCode_returns style (htick ▸ hc)) fun _ => ?_
  refine .ite (fun himage => walkImage_returns style himage.2) fun _ => ?_
  refine .ite (fun _ => walkLink_returns hdeeper style hlt) fun _ => ?_
  refine .ite (fun _ => walkEmphasis_returns isAlphanumeric hdeeper style hc) fun _ => ?_
  refine .ite (fun _ => ?_) fun _ => ?_
  · refine (runLen_returns hlt.le '~').bind fun run _ => ?_
    exact .ite (fun _ => walkStrike_returns hdeeper chars style w)
      fun _ => literal_forward w _ Nat.one_pos
  refine .ite (fun _ => walkAutolink_returns style hlt) fun _ => ?_
  refine .ite (fun _ => ?_) fun _ => ?_
  · refine Returns.bind ((charsFrom_returns hlt.le).bind fun rest _ =>
      returns_pure (P := fun _ => True) trivial) fun bare _ => ?_
    exact .ite (fun _ => walkBareUrl_returns style hlt) fun _ => literal_forward w _ Nat.one_pos
  refine .ite (fun _ => literal_forward w _ Nat.one_pos) fun _ => ?_
  exact .ite (fun _ => literal_forward w _ Nat.one_pos) fun _ => literal_forward w _ Nat.one_pos

theorem walkInline_returns (isAlphanumeric : Char → Bool) (nest : ℕ) (text : Text) (style : Style)
    (out : List Span) : Returns (walkInline isAlphanumeric nest text style out) fun _ => True := by
  induction nest generalizing text style out with
  | zero => exact returns_pure trivial
  | succ nest ih =>
    refine loop_returns (fun _ => True) (fun w => text.length - w.i) ?_ trivial
      (Nat.lt_succ_self _)
    intro w _
    unfold walkInlineTurn
    cases hc : text[w.i]? with
    | none => exact returns_pure trivial
    | some c =>
      have hlt := lt_length_of_getElem? hc
      refine (walkChar_returns isAlphanumeric ih style hc).bind fun w' hw' =>
        returns_pure ⟨trivial, ?_⟩
      omega

/-- **The inline Markdown of every text is parsed.** -/
theorem inlineSpans_returns (isAlphanumeric : Char → Bool) (text : Text) :
    Returns (inlineSpans isAlphanumeric text) fun _ => True :=
  (walkInline_returns isAlphanumeric MAX_NEST text {} []).bind fun _ _ => returns_pure trivial

end Readme

end Atlas
