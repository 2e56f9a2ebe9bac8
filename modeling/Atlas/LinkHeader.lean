import Atlas.Delimited
import Atlas.TextCut

/-!
# The links of a header

A Link header line is a list of links with commas between them. A link is a target in
angle brackets and its parameters, each behind a semicolon: a name, and possibly a value,
which is a token or a quoted string. Blanks may stand around each part. A comma is a
character like any other in a target and in a quoted string.

`LinkLine` is such a line and `LinkLine.text` its text. `Link.IsNext` says that the target
is the next page's: the first `rel` parameter lists the relation `next`, and the link is
about the page it came with. The pieces between a line's commas are those of its links,
one link after the other (`LinkLine.split_text`).
-/

namespace LinkHeader

open Text Delimited

/-! ## Characters -/

/-- Blanks that may stand between the parts of a line, spaces and tabs, as the grammar of
the header has them. -/
abbrev Blanks := {s : Text // ∀ c ∈ s, c = ' ' ∨ c = '\t'}

/-- Whether a character can stand in a token of a header, unquoted. -/
def isTokenChar (c : Char) : Bool :=
  isAsciiAlphanumeric c || "!#$%&'*+-.^_`|~".toList.contains c

/-- The characters of a URI, reserved and unreserved; the closing angle bracket is none of them. -/
def isUriChar (c : Char) : Bool :=
  isAsciiAlphanumeric c || "-._~:/?#[]@!$&'()*+,;=%".toList.contains c

/-- The characters a header line may contain: a tab, what is visible, the space, and bytes
that are not ASCII. -/
def isFieldChar (c : Char) : Bool :=
  c = '\t' || (0x20 ≤ c.toNat && c.toNat ≤ 0xFF && c.toNat != 0x7F)

theorem toNat_lt_of_isUriChar {c : Char} (h : isUriChar c = true) : c.toNat < 128 := by
  have hlist : ("-._~:/?#[]@!$&'()*+,;=%".toList.all fun d => d.toNat < 128) = true := by decide
  have hle : ∀ {d : Char}, d.toNat < 128 → c ≤ d → c.toNat < 128 := fun hd hcd =>
    Nat.lt_of_le_of_lt (UInt32.le_iff_toNat_le.mp hcd) hd
  unfold isUriChar isAsciiAlphanumeric at h
  simp only [Bool.or_eq_true, Bool.and_eq_true, decide_eq_true_eq] at h
  obtain ((⟨-, h9⟩ | ⟨-, hz⟩) | ⟨-, hZ⟩) | hmem := h
  · exact hle (by decide) h9
  · exact hle (by decide) hz
  · exact hle (by decide) hZ
  · exact of_decide_eq_true (List.all_eq_true.mp hlist c (List.contains_iff_mem.mp hmem))

/-- A character of a URI is no bracket around it, no quote and no blank. -/
theorem isUriChar_spec {c : Char} (h : isUriChar c = true) :
    c ≠ '>' ∧ c ≠ '"' ∧ isWhitespace c = false := by
  have hascii : ∀ c : Char, c.toNat < 128 → isUriChar c = true →
      c ≠ '>' ∧ c ≠ '"' ∧ isWhitespace c = false :=
    forall_char_lt (by decide +kernel)
  exact hascii c (toNat_lt_of_isUriChar h) h

/-! ## Links -/

/-- A character of a quoted string, possibly with a backslash before it. -/
structure QuotedChar where
  char : Char
  escaped : Bool
  char_field : isFieldChar char = true
  plain : escaped = false → char ≠ '"' ∧ char ≠ '\\'

/-- A character of a quoted string as it is written, perhaps behind a backslash. -/
def QuotedChar.text (q : QuotedChar) : Text := if q.escaped then ['\\', q.char] else [q.char]

/-- The value of a parameter, as a token or as a quoted string; both mean the same text. -/
inductive ParamValue where
  | token (text : Text) (chars : text ≠ [] ∧ ∀ c ∈ text, isTokenChar c = true)
  | quoted (chars : List QuotedChar)

namespace ParamValue

/-- What the value is, with the escapes of a quoted string resolved. -/
def value : ParamValue → Text
  | token text _ => text
  | quoted chars => chars.map QuotedChar.char

/-- How it is written in the header, with the quotes and escapes where it has them. -/
def text : ParamValue → Text
  | token text _ => text
  | quoted chars => '"' :: chars.flatMap QuotedChar.text ++ ['"']

end ParamValue

/-- A value with the blanks before and after its equals sign, where blanks may stand
although writers seldom put any. -/
structure Assigned where
  before : Blanks
  after : Blanks
  value : ParamValue

/-- A parameter of a link, with the blanks before and after its semicolon. -/
structure Param where
  before : Blanks
  after : Blanks
  name : Text
  assigned : Option Assigned
  name_chars : name ≠ [] ∧ ∀ c ∈ name, isTokenChar c = true

namespace Param

/-- The value; a parameter without one has the empty value. -/
def value (p : Param) : Text := (p.assigned.map fun a => a.value.value).getD []

/-- The text of it, with the blanks that it was written with. -/
def text (p : Param) : Text :=
  p.before ++ ';' :: p.after ++ p.name ++
    (p.assigned.map fun a => a.before.1 ++ '=' :: a.after ++ a.value.text).getD []

end Param

/-- A link, with the blanks after it and its parameters, as one element of a header. -/
structure Link where
  target : Text
  params : List Param
  after : Blanks
  target_chars : ∀ c ∈ target, isUriChar c = true

namespace Link

/-- The text of it, with the blanks that it was written with. -/
def text (l : Link) : Text := '<' :: l.target ++ '>' :: l.params.flatMap Param.text ++ l.after

/-- The value of the first parameter of a name, whose name is compared without regard to
case; later ones with the name are ignored. -/
def param (l : Link) (name : Text) : Option Text :=
  (l.params.find? fun p => eqIgnoreAsciiCase p.name name).map Param.value

/-- **A link to the next page**: its relation types include `next`, and it is not about
another page. -/
def IsNext (l : Link) : Prop :=
  l.param "anchor".toList = none ∧
    ∃ relations, l.param "rel".toList = some relations ∧
      (split ' ' relations).any (fun type => eqIgnoreAsciiCase type "next".toList) = true

end Link

/-- What stands between two commas of a line: a link, or nothing but blanks. -/
structure Element where
  before : Blanks
  link : Option Link

/-- The text of an element of the header: what stands before it, and its link if it has one. -/
def Element.text (e : Element) : Text := e.before ++ (e.link.map Link.text).getD []

/-- A line of a Link header, some of whose elements may be empty. -/
structure LinkLine where
  elements : List Element

namespace LinkLine

/-- The text of it, with the blanks that it was written with. -/
def text (line : LinkLine) : Text := List.intercalate [','] (line.elements.map Element.text)

/-- The links of a line, in the order in which they stand in it. -/
def links (line : LinkLine) : List Link := line.elements.filterMap Element.link

end LinkLine

/-! ## The pieces between the commas -/

/-- The pieces of a link without the blanks around them, as the client gets them, which
splits at every comma, also inside of angle brackets. -/
def Link.pieces (l : Link) : List Text := (split ',' l.text).map trim

theorem isWhitespace_of_blank {s : Blanks} {c : Char} (h : c ∈ s.1) : isWhitespace c = true := by
  obtain rfl | rfl := s.2 c h
  · decide
  · decide

theorem comma_notMem_blanks (s : Blanks) : ',' ∉ s.1 := fun h => by
  obtain hc | hc := s.2 ',' h
  · cases hc
  · cases hc

/-- Blanks before a text do not count once it is trimmed. -/
theorem trim_blanks_append (b : Blanks) (s : Text) : (b.1 ++ s).trim = s.trim := by
  unfold trim
  rw [List.dropWhile_append_of_pos fun c hc => isWhitespace_of_blank hc]

/-- **The pieces of an element** are those of its link. -/
theorem Element.pieces (e : Element) : (split ',' e.text).map trim =
    match e.link with
    | none => [[]]
    | some l => l.pieces := by
  unfold Element.text
  cases e.link with
  | none =>
    show (split ',' (e.before.1 ++ [])).map trim = [[]]
    rw [List.append_nil, split_eq_singleton (comma_notMem_blanks e.before), List.map_singleton]
    have htrim := trim_blanks_append e.before []
    rw [List.append_nil] at htrim
    rw [htrim]
    rfl
  | some l =>
    show (split ',' (e.before.1 ++ l.text)).map trim = (split ',' l.text).map trim
    obtain ⟨first, fields, hs⟩ :=
      List.exists_cons_of_ne_nil (show split ',' l.text ≠ [] from split_ne_nil l.text)
    rw [split_append_of_notMem (comma_notMem_blanks e.before) hs, hs, List.map_cons,
      List.map_cons, trim_blanks_append]

/-- **The pieces of a line** are those of its elements, one after the other. -/
theorem LinkLine.split_text {line : LinkLine} (hne : line.elements ≠ []) :
    (split ',' line.text).map trim =
      line.elements.flatMap fun e => (split ',' e.text).map trim := by
  unfold LinkLine.text
  rw [split_intercalate_flatMap (fun h => hne (List.map_eq_nil_iff.mp h)), List.flatMap_map,
    List.map_flatMap]

end LinkHeader
