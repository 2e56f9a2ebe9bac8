import Atlas.Lines
import Atlas.Slicing

/-!
# Tags, attributes and entities of a model card

A model card mixes Markdown and presentational HTML. Its HTML is scanned at byte offsets: a tag
from its `<` with regard to quotes, the tag that closes another one by counting those of its name
in between, and an attribute in a copy of the tag in lower case.

Every offset that comes out of a scan is a boundary of the text, for any text. Each scan has one
lemma that says so, and that the scan goes forward: `tagEnd_eq_some`, `tagName_returns`,
`findOpenTag_returns`, `findMatchingClose_returns`, `attr_returns`, `decodeEntities_returns`.
-/

namespace Atlas

namespace Readme

open Text Run

/-! ## Bytes -/

/-- `u8::is_ascii_whitespace`, which counts the form feed and not the vertical tab. -/
def isAsciiWhitespace (b : UInt8) : Bool :=
  b = ' '.toUInt8 || b = '\t'.toUInt8 || b = '\n'.toUInt8 || b = 0x0C || b = '\r'.toUInt8

/-- `u8::is_ascii_alphanumeric`, on one byte of a text. -/
def isAlphanumericByte (b : UInt8) : Bool :=
  ('0'.toUInt8 ≤ b && b ≤ '9'.toUInt8) || ('a'.toUInt8 ≤ b && b ≤ 'z'.toUInt8) ||
    ('A'.toUInt8 ≤ b && b ≤ 'Z'.toUInt8)

/-- `u8::is_ascii_hexdigit`, in either case of the letters. -/
def isHexdigitByte (b : UInt8) : Bool :=
  ('0'.toUInt8 ≤ b && b ≤ '9'.toUInt8) || ('a'.toUInt8 ≤ b && b ≤ 'f'.toUInt8) ||
    ('A'.toUInt8 ≤ b && b ≤ 'F'.toUInt8)

theorem isAsciiWhitespace_lt (b : UInt8) (h : isAsciiWhitespace b = true) : b.toNat < 128 :=
  forall_byte (p := fun b => isAsciiWhitespace b = true → b.toNat < 128) (by decide +kernel) b h

theorem isAlphanumericByte_lt (b : UInt8) (h : isAlphanumericByte b = true) : b.toNat < 128 :=
  forall_byte (p := fun b => isAlphanumericByte b = true → b.toNat < 128) (by decide +kernel) b h

theorem isHexdigitByte_lt (b : UInt8) (h : isHexdigitByte b = true) : b.toNat < 128 :=
  forall_byte (p := fun b => isHexdigitByte b = true → b.toNat < 128) (by decide +kernel) b h

/-! ## The end of a tag -/

/-- The loop over the bytes of a tag: those that are left, and the offset of the first. -/
def tagEndFrom : Option UInt8 → Bytes → ℕ → Option ℕ
  | _, [], _ => none
  | some q, c :: rest, i => tagEndFrom (if c = q then none else some q) rest (i + 1)
  | none, c :: rest, i =>
    if c = '"'.toUInt8 ∨ c = '\u0027'.toUInt8 then tagEndFrom (some c) rest (i + 1)
    else if c = '>'.toUInt8 then some (i + 1)
    else tagEndFrom none rest (i + 1)

/-- The offset just past the closing `>` of the tag that starts at an offset. -/
def tagEnd (s : Text) (opn : ℕ) : Option ℕ :=
  tagEndFrom none ((utf8 s).drop (opn + 1)) (opn + 1)

variable {s : Text} {opn i : ℕ}

theorem tagEndFrom_eq_some {quote : Option UInt8} {bytes : Bytes} {e : ℕ}
    (h : tagEndFrom quote bytes i = some e) :
    ∃ n, bytes[n]? = some '>'.toUInt8 ∧ e = i + n + 1 := by
  induction bytes generalizing quote i with
  | nil => cases h
  | cons c rest ih =>
    have hlater : ∀ {q}, tagEndFrom q rest (i + 1) = some e →
        ∃ n, (c :: rest)[n]? = some '>'.toUInt8 ∧ e = i + n + 1 := by
      intro q hq
      obtain ⟨n, hn, rfl⟩ := ih hq
      exact ⟨n + 1, hn, by omega⟩
    cases quote with
    | some q => exact hlater h
    | none =>
      unfold tagEndFrom at h
      split at h
      · exact hlater h
      · split at h
        · rename_i hc
          cases h
          exact ⟨0, congrArg some hc, rfl⟩
        · exact hlater h

/-- **A tag ends at a boundary**, past its start. -/
theorem tagEnd_eq_some {e : ℕ} (h : tagEnd s opn = some e) : opn + 2 ≤ e ∧ Boundary s e := by
  obtain ⟨n, hn, rfl⟩ := tagEndFrom_eq_some h
  rw [List.getElem?_drop] at hn
  exact ⟨by omega, boundary_succ_of_ascii hn (by decide)⟩

/-! ## The name of a tag -/

/-- The name of the tag at an offset in lower case, whether it is a closing tag, and where the
name ends. -/
def tagName (s : Text) (opn : ℕ) : Run (Option (Text × Bool × ℕ)) :=
  let closing := byteAt s (opn + 1) == some '/'.toUInt8
  let start := if closing then opn + 2 else opn + 1
  let i := start + byteRun isAlphanumericByte s start
  if i = start then pure none
  else do
    let name ← slice s start i
    pure (some (toAsciiLowercase name, closing, i))

theorem tagName_returns (s : Text) (opn : ℕ) : Returns (tagName s opn) fun _ => True := by
  unfold tagName
  dsimp only
  generalize (byteAt s (opn + 1) == some '/'.toUInt8) = closing
  generalize (if closing = true then opn + 2 else opn + 1) = start
  split
  · exact returns_pure trivial
  · rename_i hrun
    have hpos : 0 < byteRun isAlphanumericByte s start := by omega
    obtain ⟨b, hbyte, hb⟩ := byteAt_of_lt_byteRun hpos
    have hstart : Boundary s start := boundary_of_ascii hbyte (isAlphanumericByte_lt b hb)
    have hend := boundary_byteRun isAlphanumericByte_lt hstart le_rfl
    exact (slice_returns hstart hend (Nat.le_add_right _ _)).bind fun _ _ => returns_pure trivial

/-! ## Opening tags -/

/-- The byte after the name of a tag ends it: the tag closes there, has a slash or has
blanks; the end of the text ends it as well. -/
def endsName (b : Option UInt8) : Bool :=
  b.all fun c => c = '>'.toUInt8 || c = '/'.toUInt8 || isAsciiWhitespace c

/-- One turn of `findOpenTag`: the next `<` opens the tag sought, or the search goes on
behind it. -/
def findOpenTagTurn (s name : Text) (i : ℕ) : Run (Turn ℕ (Option ℕ)) := do
  match ← findFrom s i ['<'] with
  | none => pure (.done none)
  | some lt =>
    match ← tagName s lt with
    | some (n, closing, nameEnd) =>
      if !closing ∧ n = name ∧ endsName (byteAt s nameEnd) then pure (.done (some lt))
      else pure (.more (lt + 1))
    | none => pure (.more (lt + 1))

/-- The next opening tag of a name at or after an offset. -/
def findOpenTag (s : Text) (start : ℕ) (name : Text) : Run (Option ℕ) :=
  loop (findOpenTagTurn s name) (utf8Len s + 1) start

/-- A `<` is at an offset, which is then a boundary between characters. -/
def LtAt (s : Text) (lt : ℕ) : Prop := ∃ t, TailAt s lt ('<' :: t)

variable {lt : ℕ}

theorem LtAt.boundary (h : LtAt s lt) : Boundary s lt := by
  obtain ⟨t, ht⟩ := h
  exact ht.boundary

theorem LtAt.boundary_succ (h : LtAt s lt) : Boundary s (lt + 1) := by
  obtain ⟨t, ht⟩ := h
  exact ht.cons.boundary

theorem LtAt.lt_len (h : LtAt s lt) : lt < utf8Len s := h.boundary_succ.le_len

theorem findOpenTag_returns (name : Text) (hi : Boundary s i) :
    Returns (findOpenTag s i name) fun found =>
      ∀ lt ∈ found, i ≤ lt ∧ LtAt s lt := by
  refine loop_returns (fun j => i ≤ j ∧ Boundary s j)
    (fun j => utf8Len s - j) ?_ ⟨le_rfl, hi⟩ (by omega)
  rintro j ⟨hij, hj⟩
  refine (findFrom_returns hj).bind ?_
  rintro (_ | lt) hfound
  · exact returns_pure (by rintro lt ⟨⟩)
  · obtain ⟨hjlt, hlt⟩ : j ≤ lt ∧ LtAt s lt := hfound lt rfl
    have hle : i ≤ lt := hij.trans hjlt
    have hmore : (i ≤ lt + 1 ∧ Boundary s (lt + 1)) ∧ utf8Len s - (lt + 1) < utf8Len s - j := by
      have hlen := hlt.lt_len
      exact ⟨⟨Nat.le_succ_of_le hle, hlt.boundary_succ⟩, by omega⟩
    refine (tagName_returns s lt).bind ?_
    rintro (_ | ⟨n, closing, nameEnd⟩) -
    · exact returns_pure hmore
    · dsimp only
      split
      · refine returns_pure ?_
        rintro _ ⟨⟩
        exact ⟨hle, hlt⟩
      · exact returns_pure hmore

/-! ## Closing tags -/

/-- The tag is closed by itself, with a slash before its `>`. -/
def selfCloses (tag : Text) : Bool := ['/'].isSuffixOf (tag.rdropWhile (· = '>'))

/-- One turn of `findMatchingClose`: the offset, and how deep tags of the name are nested. -/
def findMatchingCloseTurn (s name : Text) :
    ℕ × ℕ → Run (Turn (ℕ × ℕ) (Option (ℕ × ℕ)))
  | (i, depth) => do
    match ← findFrom s i ['<'] with
    | none => pure (.done none)
    | some lt =>
      let rest ← sliceFrom s lt
      if "<!--".toList.isPrefixOf rest then
        let found ← findFrom s (lt + 4) "-->".toList
        pure (.more ((found.map (· + 3)).getD (utf8Len s), depth))
      else
        match (← tagName s lt).filter fun tag => tag.1 = name with
        | some (_, closing, _) =>
          let e := (tagEnd s lt).getD (utf8Len s)
          if closing then
            if depth = 0 then pure (.done (some (lt, e))) else pure (.more (e, depth - 1))
          else
            let tag ← slice s lt e
            pure (.more (e, if selfCloses tag then depth else depth + 1))
        | none => pure (.more (lt + 1, depth))

/-- The tag that closes one of a name from an offset on: where it starts and where it ends. Tags
of the name are counted, and comments skipped. -/
def findMatchingClose (s : Text) (start : ℕ) (name : Text) : Run (Option (ℕ × ℕ)) :=
  loop (findMatchingCloseTurn s name) (utf8Len s + 1) (start, 0)

/-- Past the tag at a `<`, which may not end, there is a boundary. -/
theorem boundary_tagEnd_getD (h : LtAt s lt) :
    lt < (tagEnd s lt).getD (utf8Len s) ∧ Boundary s ((tagEnd s lt).getD (utf8Len s)) := by
  cases hend : tagEnd s lt with
  | none => exact ⟨h.lt_len, boundary_len s⟩
  | some e =>
    obtain ⟨hle, he⟩ := tagEnd_eq_some hend
    exact ⟨Nat.lt_of_succ_lt hle, he⟩

/-- Past the comment at a `<`, which may not end, there is a boundary. -/
theorem boundary_comment {t : Text} (h : TailAt s lt t)
    (hcomment : "<!--".toList.isPrefixOf t = true) :
    Returns (findFrom s (lt + 4) "-->".toList) fun found =>
      lt < (found.map (· + 3)).getD (utf8Len s) ∧
        Boundary s ((found.map (· + 3)).getD (utf8Len s)) := by
  obtain ⟨rest, rfl⟩ := List.isPrefixOf_iff_prefix.mp hcomment
  have hopen : TailAt s (lt + 4) rest := h.append
  refine (findFrom_returns hopen.boundary).mono ?_
  rintro (_ | close) hclose
  · have hle := hopen.boundary.le_len
    exact ⟨by dsimp only [Option.map_none, Option.getD_none]; omega, boundary_len s⟩
  · obtain ⟨hle, u, hu⟩ := hclose close rfl
    exact ⟨by dsimp only [Option.map_some, Option.getD_some]; omega, hu.append.boundary⟩

/-- **A closing tag lies between boundaries** at or after where the search starts. -/
theorem findMatchingClose_returns (name : Text) (hi : Boundary s i) :
    Returns (findMatchingClose s i name) fun found =>
      ∀ tag ∈ found, i ≤ tag.1 ∧ tag.1 < tag.2 ∧ LtAt s tag.1 ∧ Boundary s tag.2 := by
  refine loop_returns (fun state => i ≤ state.1 ∧ Boundary s state.1)
    (fun state => utf8Len s - state.1) ?_ ⟨le_rfl, hi⟩ (by dsimp only; omega)
  rintro ⟨j, depth⟩ ⟨hij, hj⟩
  refine (findFrom_returns hj).bind ?_
  rintro (_ | lt) hfound
  · exact returns_pure (by rintro tag ⟨⟩)
  obtain ⟨hjlt, hlt⟩ : j ≤ lt ∧ LtAt s lt := hfound lt rfl
  have hlen := hlt.lt_len
  have hmore : ∀ {k : ℕ}, lt < k → Boundary s k →
      (i ≤ k ∧ Boundary s k) ∧ utf8Len s - k < utf8Len s - j := by
    intro k hk hbound
    dsimp only at hij
    exact ⟨⟨by omega, hbound⟩, by omega⟩
  refine (sliceFrom_returns hlt.boundary).bind fun rest hrest => ?_
  dsimp only
  split
  · rename_i hcomment
    exact (boundary_comment hrest hcomment).bind fun found hend =>
      returns_pure (hmore hend.1 hend.2)
  · obtain ⟨hlt', he⟩ := boundary_tagEnd_getD hlt
    refine (tagName_returns s lt).bind fun tag _ => ?_
    split
    · split
      · split
        · refine returns_pure ?_
          rintro _ ⟨⟩
          exact ⟨hij.trans hjlt, hlt', hlt, he⟩
        · exact returns_pure (hmore hlt' he)
      · exact (slice_returns hlt.boundary he hlt'.le).bind fun tag _ =>
          returns_pure (hmore hlt' he)
    · exact returns_pure (hmore (Nat.lt_succ_self lt) hlt.boundary_succ)

/-! ## Entities -/

/-- The end of a placeholder, an object replacement character, which a card has no use for. -/
def OBJ : Char := '\uFFFC'

/-- The entities that have a name, and what they stand for, in the order in which the source
tries them. -/
def NAMED_ENTITIES : List (Text × Char) :=
  [("&lt;".toList, '<'), ("&gt;".toList, '>'), ("&quot;".toList, '"'), ("&apos;".toList, '\u0027'),
    ("&#39;".toList, '\u0027'), ("&nbsp;".toList, '\u00A0'), ("&mdash;".toList, '—'),
    ("&ndash;".toList, '–'), ("&hellip;".toList, '…'), ("&copy;".toList, '©'),
    ("&reg;".toList, '®'), ("&trade;".toList, '™'), ("&deg;".toList, '°'),
    ("&times;".toList, '×'), ("&divide;".toList, '÷'), ("&plusmn;".toList, '±'),
    ("&larr;".toList, '←'), ("&rarr;".toList, '→'), ("&uarr;".toList, '↑'),
    ("&darr;".toList, '↓'), ("&harr;".toList, '↔'), ("&bull;".toList, '•'),
    ("&middot;".toList, '·'), ("&laquo;".toList, '«'), ("&raquo;".toList, '»'),
    ("&ldquo;".toList, '\u201C'), ("&rdquo;".toList, '\u201D'), ("&lsquo;".toList, '\u2018'),
    ("&rsquo;".toList, '\u2019'), ("&sect;".toList, '§'), ("&para;".toList, '¶'),
    ("&dagger;".toList, '†'), ("&check;".toList, '✓'), ("&cross;".toList, '✗'),
    ("&star;".toList, '☆'), ("&infin;".toList, '∞'), ("&asymp;".toList, '≈'),
    ("&ne;".toList, '≠'), ("&le;".toList, '≤'), ("&ge;".toList, '≥')]

/-- The number that digits write in a radix, or nothing where one of them is not a digit of it. -/
def fromStrRadix (radix : ℕ) (digits : Text) : Option ℕ :=
  digits.foldlM (fun n c =>
    (hexValue c).bind fun d => if d < radix then some (n * radix + d) else none) 0

/-- The character with a number, if there is one: surrogates and numbers above the last code
point are none. -/
def fromU32 (n : ℕ) : Option Char :=
  if n < 0xD800 ∨ (0xDFFF < n ∧ n < 0x110000) then some (Char.ofNat n) else none

/-- The digits after `&#`, their radix, and the length of what comes before them. -/
def numericDigits : Text → Text × ℕ × ℕ
  | 'x' :: hex | 'X' :: hex => (hex, 16, 3)
  | rest => (rest, 10, 2)

/-- The character of the numeric entity that a text starts with, and the length of the entity. No
control character but the line feed is taken. -/
def numericEntity (s : Text) : Run (Option (Char × ℕ)) :=
  if "&#".toList.isPrefixOf s then
    let (digits, radix, before) := numericDigits (s.drop 2)
    let len := min (byteRun isHexdigitByte digits 0) 8
    if len = 0 then pure none
    else do
      let after ← sliceFrom digits len
      if after.head? = some ';' then
        let number ← sliceTo digits len
        let ch := ((fromStrRadix radix number).bind fromU32).filter fun ch =>
          !isControl ch || ch == '\n'
        pure (ch.map fun ch => (ch, before + len + 1))
      else pure none
  else pure none

/-- What an escaped ampersand is until all other entities are decoded, so that it is not
decoded twice: a mark between two object replacement characters. -/
def AMP : Text := OBJ :: ("AMP".toList ++ [OBJ])

/-- One turn of `decodeEntities`: the offset, and what is decoded; text up to the next
ampersand is copied at once. -/
def decodeEntitiesTurn (s : Text) : ℕ × Text → Run (Turn (ℕ × Text) Text)
  | (i, out) =>
    match byteAt s i with
    | none => pure (.done out)
    | some b =>
      if b ≠ '&'.toUInt8 then do
        let next := (← findFrom s i ['&']).getD (utf8Len s)
        let plain ← slice s i next
        pure (.more (next, out ++ plain))
      else do
        let rest ← sliceFrom s i
        -- resolved last, so that it cannot form another entity
        if "&amp;".toList.isPrefixOf rest then pure (.more (i + 5, out ++ AMP))
        else
          match NAMED_ENTITIES.find? fun entity => entity.1.isPrefixOf rest with
          | some (name, repl) => pure (.more (i + utf8Len name, out ++ [repl]))
          | none =>
            match ← numericEntity rest with
            | some (ch, len) => pure (.more (i + len, out ++ [ch]))
            | none => pure (.more (i + 1, out ++ ['&']))

/-- Decode the entities of a text from left to right; escaped ampersands are put back last,
so that nothing is decoded twice. -/
def decodeEntities (s : Text) : Run Text := do
  let out ← loop (decodeEntitiesTurn s) (utf8Len s + 1) (0, [])
  pure (replaceAll AMP ['&'] out)

theorem numericDigits_tailAt (rest : Text) :
    TailAt ("&#".toList ++ rest) (numericDigits rest).2.2 (numericDigits rest).1 := by
  unfold numericDigits
  split
  · exact tailAt_append "&#x".toList _
  · exact tailAt_append "&#X".toList _
  · exact tailAt_append "&#".toList _

theorem numericEntity_returns (s : Text) :
    Returns (numericEntity s) fun found => ∀ entity ∈ found, 0 < entity.2 ∧ Boundary s entity.2 := by
  unfold numericEntity
  split
  · rename_i hprefix
    obtain ⟨rest, rfl⟩ := List.isPrefixOf_iff_prefix.mp hprefix
    have hdigits : TailAt ("&#".toList ++ rest) _ _ := numericDigits_tailAt rest
    rw [show ("&#".toList ++ rest).drop 2 = rest from rfl]
    generalize numericDigits rest = parts at hdigits
    obtain ⟨digits, radix, before⟩ := parts
    dsimp only at hdigits ⊢
    split
    · exact returns_pure (by rintro entity ⟨⟩)
    · have hlen : Boundary digits (min (byteRun isHexdigitByte digits 0) 8) := by
        have hrun := boundary_byteRun isHexdigitByte_lt (boundary_zero digits)
          (Nat.min_le_left (byteRun isHexdigitByte digits 0) 8)
        rwa [Nat.zero_add] at hrun
      refine (sliceFrom_returns hlen).bind fun after hafter => ?_
      split
      · rename_i hsemi
        obtain ⟨t, rfl⟩ := List.head?_eq_some_iff.mp hsemi
        refine (sliceTo_returns hlen).bind fun number _ => returns_pure ?_
        intro entity hentity
        obtain ⟨ch, -, rfl⟩ := Option.map_eq_some_iff.mp hentity
        have hend : Boundary digits (min (byteRun isHexdigitByte digits 0) 8 + 1) :=
          hafter.cons.boundary
        exact ⟨Nat.succ_pos _, hdigits.boundary_add hend⟩
      · exact returns_pure (by rintro entity ⟨⟩)
  · exact returns_pure (by rintro entity ⟨⟩)

/-- A byte at a boundary that does not start a pattern is skipped by the search for it. -/
theorem findFrom_getD_returns {c : Char} (hi : Boundary s i) {b : UInt8}
    (hbyte : byteAt s i = some b) (hc : String.utf8EncodeChar c = [c.toUInt8])
    (hne : b ≠ c.toUInt8) :
    Returns (findFrom s i [c]) fun found =>
      i < found.getD (utf8Len s) ∧ Boundary s (found.getD (utf8Len s)) := by
  refine (findFrom_returns hi).mono ?_
  rintro (_ | j) hfound
  · exact ⟨byteAt_lt hbyte, boundary_len s⟩
  · obtain ⟨hij, t, ht⟩ := hfound j rfl
    refine ⟨Nat.lt_of_le_of_ne hij ?_, ht.boundary⟩
    rintro rfl
    have hfirst := ht.byteAt_add (j := 0)
    rw [Nat.add_zero, hbyte] at hfirst
    refine hne (Option.some.inj (hfirst.trans ?_))
    show (String.utf8EncodeChar c ++ utf8 t)[0]? = _
    rw [hc]
    rfl

/-- **Decoding goes through every text.** -/
theorem decodeEntities_returns (s : Text) : Returns (decodeEntities s) fun _ => True := by
  have hloop : Returns (loop (decodeEntitiesTurn s) (utf8Len s + 1) (0, [])) fun _ => True := by
    -- as in every scan of the readme: a boundary position that only moves on
    refine loop_returns (fun state => Boundary s state.1)
      (fun state => utf8Len s - state.1) ?_ (boundary_zero s) (Nat.lt_succ_self _)
    rintro ⟨i, out⟩ hi
    dsimp only at hi
    unfold decodeEntitiesTurn
    dsimp only
    cases hbyte : byteAt s i with
    | none => exact returns_pure trivial
    | some b =>
      have hlt := byteAt_lt hbyte
      have hmore : ∀ {k : ℕ} (out : Text), i < k → Boundary s k →
          Returns (pure (Turn.more (k, out))) (Turn.Sat
            (fun state : ℕ × Text => Boundary s state.1 ∧ utf8Len s - state.1 < utf8Len s - i)
            fun _ : Text => True) := by
        intro k out hk hbound
        exact returns_pure ⟨hbound, by dsimp only; omega⟩
      dsimp only
      by_cases hne : b ≠ '&'.toUInt8
      · rw [if_pos hne]
        refine (findFrom_getD_returns hi hbyte rfl hne).bind fun next hnext => ?_
        exact (slice_returns hi hnext.2 hnext.1.le).bind fun plain _ => hmore _ hnext.1 hnext.2
      · rw [if_neg hne]
        refine (sliceFrom_returns hi).bind fun rest hrest => ?_
        -- the source tries `&amp;` first, then the named entities, then a numeric one, and passes
        -- an `&` that opens none of them
        split
        · rename_i hamp
          obtain ⟨after, rfl⟩ := List.isPrefixOf_iff_prefix.mp hamp
          exact hmore _ (Nat.lt_add_of_pos_right (by decide)) hrest.append.boundary
        · split
          · rename_i name repl hfind
            have hprefix := List.find?_some hfind
            obtain ⟨after, rfl⟩ := List.isPrefixOf_iff_prefix.mp hprefix
            have hall : NAMED_ENTITIES.all (fun entity => 0 < utf8Len entity.1) = true := by
              decide
            have hpos := of_decide_eq_true
              (List.all_eq_true.mp hall _ (List.mem_of_find?_eq_some hfind))
            exact hmore _ (Nat.lt_add_of_pos_right hpos) hrest.append.boundary
          · refine (numericEntity_returns rest).bind ?_
            rintro (_ | ⟨ch, len⟩) hentity
            · have hb : b = '&'.toUInt8 := not_not.mp hne
              exact hmore _ (Nat.lt_succ_self i)
                (boundary_succ_of_ascii hbyte (by rw [hb]; decide))
            · obtain ⟨hpos, hbound⟩ := hentity _ rfl
              exact hmore _ (Nat.lt_add_of_pos_right hpos) (hrest.boundary_add hbound)
  exact hloop.bind fun out _ => returns_pure trivial

/-! ## Attributes -/

/-- The value of an attribute from its first byte `q` on, which may be a quote. -/
def attrValue (tagSrc : Text) (i : ℕ) (q : UInt8) : Run Text :=
  if q = '"'.toUInt8 ∨ q = '\u0027'.toUInt8 then do
    let e := (← findFrom tagSrc (i + 1) [Char.ofUInt8 q]).getD (utf8Len tagSrc)
    let value ← slice tagSrc (i + 1) e
    decodeEntities value
  else do
    let len := byteRun
      (fun b => !isAsciiWhitespace b && b ≠ '>'.toUInt8 && b ≠ '/'.toUInt8) tagSrc i
    let value ← slice tagSrc i (i + len)
    decodeEntities value

/-- One turn of `attr`: the offset in the tag in lower case. -/
def attrTurn (tagSrc name : Text) (i : ℕ) : Run (Turn ℕ (Option Text)) := do
  match ← findFrom (toAsciiLowercase tagSrc) i name with
  | none => pure (.done none)
  | some pos =>
    if pos = 0 ∨ (byteAt tagSrc (pos - 1)).any fun b => isAlphanumericByte b || b = '-'.toUInt8 then
      pure (.more (pos + 1))
    else
      let eq := pos + utf8Len name + byteRun isAsciiWhitespace tagSrc (pos + utf8Len name)
      if byteAt tagSrc eq ≠ some '='.toUInt8 then pure (.more (pos + 1))
      else
        let start := eq + 1 + byteRun isAsciiWhitespace tagSrc (eq + 1)
        match byteAt tagSrc start with
        | none => pure (.done none)
        | some q =>
          let value ← attrValue tagSrc start q
          pure (.done (some value))

/-- The value of `name="..."` inside a tag's source text, without its quotes, looked for in
lower case and from the left. -/
def attr (tagSrc name : Text) : Run (Option Text) :=
  loop (attrTurn tagSrc name) (utf8Len (toAsciiLowercase tagSrc) + 1) 0

variable {tagSrc name : Text}

theorem attrValue_returns {q : UInt8} (hi : Boundary tagSrc i) (hbyte : byteAt tagSrc i = some q) :
    Returns (attrValue tagSrc i q) fun _ => True := by
  unfold attrValue
  split
  · rename_i hquote
    have hascii : q.toNat < 128 := by
      obtain rfl | rfl := hquote
      · decide
      · decide
    have hsucc := boundary_succ_of_ascii hbyte hascii
    refine (findFrom_returns hsucc).bind ?_
    rintro (_ | e) he
    · exact (slice_returns hsucc (boundary_len _) hsucc.le_len).bind fun value _ =>
        decodeEntities_returns value
    · obtain ⟨hle, t, ht⟩ := he e rfl
      exact (slice_returns hsucc ht.boundary hle).bind fun value _ => decodeEntities_returns value
  · have hp : ∀ b : UInt8, (!isAsciiWhitespace b && b ≠ '>'.toUInt8 && b ≠ '/'.toUInt8) = false →
        b.toNat < 128 := forall_byte (by decide +kernel)
    exact (slice_returns hi (boundary_byteRun_end hp hi.le_len) (Nat.le_add_right _ _)).bind
      fun value _ => decodeEntities_returns value

/-- **An attribute whose name starts with an ASCII character** is looked up in every tag. -/
theorem attr_returns {c : Char} {rest : Text} (hc : c.utf8Size = 1) (tagSrc : Text) :
    Returns (attr tagSrc (c :: rest)) fun _ => True := by
  refine loop_returns (fun i => Boundary (toAsciiLowercase tagSrc) i)
    (fun i => utf8Len (toAsciiLowercase tagSrc) - i) ?_ (boundary_zero _)
    (Nat.lt_succ_self _)
  intro i hi
  refine (findFrom_returns hi).bind ?_
  rintro (_ | pos) hfound
  · exact returns_pure trivial
  obtain ⟨hle, t, ht⟩ := hfound pos rfl
  have hsucc : Boundary (toAsciiLowercase tagSrc) (pos + 1) := by
    have hnext := TailAt.cons ht
    rw [hc] at hnext
    exact hnext.boundary
  have hmore : Returns (pure (Turn.more (pos + 1))) (Turn.Sat
      (fun j => Boundary (toAsciiLowercase tagSrc) j ∧
        utf8Len (toAsciiLowercase tagSrc) - j < utf8Len (toAsciiLowercase tagSrc) - i)
      fun _ : Option Text => True) := by
    have hlen := hsucc.le_len
    exact returns_pure ⟨hsucc, by omega⟩
  dsimp only
  split
  · exact hmore
  · split
    · exact hmore
    · rename_i heq
      have hstart : Boundary tagSrc _ := boundary_succ_of_ascii (not_not.mp heq) (by decide)
      split
      · exact returns_pure trivial
      · rename_i q hq
        have hvalue := boundary_byteRun isAsciiWhitespace_lt hstart le_rfl
        exact (attrValue_returns hvalue hq).bind fun value _ => returns_pure trivial

end Readme

end Atlas
