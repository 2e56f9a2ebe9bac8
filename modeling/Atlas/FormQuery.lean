import Mathlib.Data.Nat.Notation
import Atlas.Delimited
import Atlas.TextCut

/-!
# The query of a URL, and its form parameters

A URL's query is what stands between its first `?` and its first `#`. Read as a form it
is a list of parameters: the pieces between the `&`s that are not empty, each a key and a
value with the first `=` between them, in which a `+` is a space and a `%` with two
hexadecimal digits is a byte. What a percent-encoded key is called is therefore not to be
seen in the text of the URL.

The one result is about a URL put together from pieces (`params_join`): its parameters
are those of the pieces, up to the first piece with a `#` in it.
-/

namespace FormQuery

open Text Delimited

/-- A parameter: its key and its value, both decoded into bytes. -/
abbrev Param := Bytes × Bytes

/-- What is before the first `#`; the rest is the fragment, which has no parameters. -/
def beforeFragment (s : Text) : Text := s.takeWhile fun c => c ≠ '#'

/-- The byte that two hexadecimal digits at the start of a text denote. -/
def escapedByte : Text → Option UInt8
  | h :: l :: _ =>
    match hexValue h, hexValue l with
    | some high, some low => some (UInt8.ofNat (high * 16 + low))
    | _, _ => none
  | _ => none

/-- What a text of a form denotes after so many characters, those of an escape already read. -/
def formDecodeFrom : ℕ → Text → Bytes
  | _, [] => []
  | skip + 1, _ :: rest => formDecodeFrom skip rest
  | 0, c :: rest =>
    if c = '+' then 0x20 :: formDecodeFrom 0 rest
    else match if c = '%' then escapedByte rest else none with
      | some b => b :: formDecodeFrom 2 rest
      | none => utf8 [c] ++ formDecodeFrom 0 rest

/-- What a text of a form denotes: its bytes, with `+` for a blank and `%` before two
hexadecimal digits. -/
def formDecode (s : Text) : Bytes := formDecodeFrom 0 s

/-- The parameter a piece of a query is, if it is one. -/
def paramOf (piece : Text) : List Param :=
  if piece = [] then []
  else [(formDecode (piece.takeWhile fun c => c ≠ '='),
    formDecode ((piece.dropWhile fun c => c ≠ '=').drop 1))]

/-- The parameters of a URL, those between its first `?` and its fragment, in their order. -/
def params (url : Text) : List Param :=
  match splitOnce ['?'] (beforeFragment url) with
  | none => []
  | some (_, query) => (split '&' query).flatMap paramOf

/-- The parameters of a query in pieces: none after the first `#`. -/
def paramsOf : List Text → List Param
  | [] => []
  | piece :: rest =>
    paramOf (beforeFragment piece) ++ if '#' ∈ piece then [] else paramsOf rest

/-! ## Decoding -/

@[simp] theorem paramOf_nil : paramOf [] = [] := rfl

theorem paramOf_of_ne {piece : Text} (h : piece ≠ []) :
    paramOf piece = [(formDecode (piece.takeWhile fun c => c ≠ '='),
      formDecode ((piece.dropWhile fun c => c ≠ '=').drop 1))] :=
  if_neg h

/-- A character that is neither `+` nor `%` denotes itself. -/
theorem formDecode_cons {c : Char} (hplus : c ≠ '+') (hpercent : c ≠ '%') (s : Text) :
    formDecode (c :: s) = utf8 [c] ++ formDecode s := by
  unfold formDecode
  rw [formDecodeFrom, if_neg hplus, if_neg hpercent]

/-! ## The fragment -/

@[simp] theorem beforeFragment_nil : beforeFragment [] = [] := rfl

/-- A text without a `#` is all before the fragment. -/
theorem beforeFragment_append {s : Text} (h : '#' ∉ s) (rest : Text) :
    beforeFragment (s ++ rest) = s ++ beforeFragment rest :=
  List.takeWhile_append_of_pos fun _ hc => decide_eq_true fun heq => h (heq ▸ hc)

theorem beforeFragment_eq_self {s : Text} (h : '#' ∉ s) : beforeFragment s = s := by
  have happ := beforeFragment_append h []
  rwa [beforeFragment_nil, List.append_nil] at happ

/-- What follows a `#` does not count. -/
theorem beforeFragment_of_mem {s : Text} (h : '#' ∈ s) (rest : Text) :
    beforeFragment (s ++ rest) = beforeFragment s := by
  obtain ⟨before, after, rfl, hbefore⟩ := List.eq_append_cons_of_mem h
  rw [List.append_assoc, beforeFragment_append hbefore, beforeFragment_append hbefore]
  rfl

theorem mem_of_mem_beforeFragment {c : Char} {s : Text} (h : c ∈ beforeFragment s) : c ∈ s :=
  (List.takeWhile_prefix _).subset h

/-- A URL without a `?` has no parameters. -/
theorem params_of_notMem {url : Text} (h : '?' ∉ beforeFragment url) : params url = [] := by
  unfold params
  rw [splitOnce_eq_none h]

/-- The pieces of a query that stand before the fragment, cut where the fragment begins. -/
def upToFragment : List Text → List Text
  | [] => []
  | piece :: rest =>
    beforeFragment piece :: if '#' ∈ piece then [] else upToFragment rest

theorem paramsOf_eq (pieces : List Text) :
    paramsOf pieces = (upToFragment pieces).flatMap paramOf := by
  induction pieces with
  | nil => rfl
  | cons piece rest ih =>
    rw [paramsOf, upToFragment, List.flatMap_cons, ih]
    split
    · rfl
    · rfl

theorem beforeFragment_intercalate (pieces : List Text) :
    beforeFragment (List.intercalate ['&'] pieces)
      = List.intercalate ['&'] (upToFragment pieces) := by
  induction pieces with
  | nil => rfl
  | cons piece rest ih =>
    rw [upToFragment]
    by_cases hrest : rest = []
    · rw [hrest, List.intercalate_singleton]
      split
      · exact List.intercalate_singleton.symm
      · exact List.intercalate_singleton.symm
    · rw [List.intercalate_cons_of_ne_nil hrest, List.append_assoc]
      by_cases hhash : '#' ∈ piece
      · rw [if_pos hhash, List.intercalate_singleton, beforeFragment_of_mem hhash]
      · have hne : upToFragment rest ≠ [] := by
          obtain ⟨p, ps, rfl⟩ := List.exists_cons_of_ne_nil hrest
          exact List.cons_ne_nil _ _
        rw [if_neg hhash, beforeFragment_eq_self hhash, beforeFragment_append hhash,
          beforeFragment_append (by decide), ih, List.intercalate_cons_of_ne_nil hne,
          List.append_assoc]

theorem notMem_upToFragment {pieces : List Text} (h : ∀ p ∈ pieces, '&' ∉ p) :
    ∀ p ∈ upToFragment pieces, '&' ∉ p := by
  induction pieces with
  | nil => exact h
  | cons piece rest ih =>
    rw [upToFragment]
    intro p hp
    obtain rfl | hp := List.mem_cons.mp hp
    · exact fun hamp => h piece List.mem_cons_self (mem_of_mem_beforeFragment hamp)
    · split at hp
      · cases hp
      · exact ih (fun q hq => h q (List.mem_cons_of_mem piece hq)) p hp

/-- **The parameters of a URL in pieces**: those of its pieces, up to the fragment. -/
theorem params_join {base : Text} (hquestion : '?' ∉ base) (hhash : '#' ∉ base)
    {pieces : List Text} (hne : pieces ≠ []) (hpieces : ∀ p ∈ pieces, '&' ∉ p) :
    params (base ++ '?' :: List.intercalate ['&'] pieces) = paramsOf pieces := by
  unfold params
  have hcut : beforeFragment (base ++ '?' :: List.intercalate ['&'] pieces)
      = base ++ (['?'] ++ List.intercalate ['&'] (upToFragment pieces)) := by
    rw [beforeFragment_append hhash, ← beforeFragment_intercalate]
    rfl
  have hfields : upToFragment pieces ≠ [] := by
    obtain ⟨p, ps, rfl⟩ := List.exists_cons_of_ne_nil hne
    exact List.cons_ne_nil _ _
  rw [hcut, splitOnce_append hquestion]
  show (split '&' (List.intercalate ['&'] (upToFragment pieces))).flatMap paramOf = _
  rw [split_intercalate hfields (notMem_upToFragment hpieces), paramsOf_eq]

/-- A URL whose fragment begins before its query has no parameters. -/
theorem params_of_fragment {base : Text} (hquestion : '?' ∉ base) (hhash : '#' ∈ base)
    (rest : Text) : params (base ++ rest) = [] := by
  refine params_of_notMem fun h => hquestion ?_
  rw [beforeFragment_of_mem hhash] at h
  exact mem_of_mem_beforeFragment h

end FormQuery
