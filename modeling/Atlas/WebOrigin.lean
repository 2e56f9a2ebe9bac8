import Mathlib.Data.Nat.Notation
import Atlas.TextCut

/-!
# The origin of a URL

The origin of an `http` or `https` URL is its scheme, its host and its port: what decides
to whom a request goes. `origin?` reads it off the text of the URL as a URL library does:
tabs and line ends do not count, the authority ends at the first slash, backslash, `?`
or `#`, what stands before its last `@` is for the user, and a port that is not written
is the scheme's. How a library writes a host (letter case, percent-encoding, numbers) is
a parameter.

What is appended behind the authority does not change the origin (`origin?_append`).
-/

namespace WebOrigin

open Text

/-- Scheme, host and port, of which a web origin consists. -/
structure Origin where
  scheme : Text
  host : Text
  port : ℕ
  deriving DecidableEq

/-- The port of a scheme, for the schemes that have an origin. -/
def schemePort (scheme : Text) : Option ℕ :=
  if scheme = "http".toList then some 80
  else if scheme = "https".toList then some 443
  else none

/-- Whether a character ends the authority, by the rules by which clients read a URL. -/
def endsAuthority (c : Char) : Bool := c = '/' || c = '\\' || c = '?' || c = '#'

/-- Whether a character counts in a URL; tabs and line breaks are dropped wherever they stand. -/
def counts (c : Char) : Bool := !(c = '\t' || c = '\n' || c = '\r')

/-- Host and port of an authority: a colon in brackets is part of the host. -/
def hostAndPort (hostPort : Text) : Text × Option Text :=
  let port := hostPort.rtakeWhile fun c => c ≠ ':'
  if ':' ∉ hostPort ∨ ']' ∈ port then (hostPort, none)
  else (hostPort.take (hostPort.length - port.length - 1), some port)

/-- The number of a port; nothing is the scheme's own; an empty port is the scheme's own
too, and anything but digits is none. -/
def portNumber (default : ℕ) : Option Text → Option ℕ
  | none => some default
  | some [] => some default
  | some digits =>
    if digits.all Char.isDigit then some (Nat.ofDigitChars 10 digits 0) else none

variable (hostForm : Text → Option Text)

/-- The origin of a scheme and an authority, or nothing where either is malformed. -/
def originOf (scheme authority : Text) : Option Origin :=
  let parts := hostAndPort (authority.rtakeWhile fun c => c ≠ '@')
  match schemePort scheme.toAsciiLowercase with
  | none => none
  | some default =>
    match hostForm parts.1, portNumber default parts.2 with
    | some host, some port => some ⟨scheme.toAsciiLowercase, host, port⟩
    | _, _ => none

/-- **The origin of a URL**, if it has one: tabs and line breaks do not count, and nothing
behind the authority is looked at. -/
def origin? (url : Text) : Option Origin :=
  match splitOnce "://".toList (url.filter counts) with
  | none => none
  | some (scheme, rest) => originOf hostForm scheme (rest.takeWhile fun c => !endsAuthority c)

theorem length_of_splitOnce {pat s : Text} {parts : Text × Text}
    (h : splitOnce pat s = some parts) : pat.length ≤ s.length := by
  induction s generalizing parts with
  | nil =>
    rw [splitOnce] at h
    split at h
    · rename_i hpat
      rw [hpat]
    · cases h
  | cons c s ih =>
    rw [splitOnce] at h
    split at h
    · rename_i hprefix
      exact (List.isPrefixOf_iff_prefix.mp hprefix).length_le
    · obtain ⟨rest, hrest, -⟩ := Option.map_eq_some_iff.mp h
      exact (ih hrest).trans (Nat.le_succ _)

/-- What is appended to a text goes to the part after the pattern. -/
theorem splitOnce_append_right {pat s before after : Text} (hpat : pat ≠ [])
    (h : splitOnce pat s = some (before, after)) (t : Text) :
    splitOnce pat (s ++ t) = some (before, after ++ t) := by
  induction s generalizing before after with
  | nil =>
    rw [splitOnce, if_neg hpat] at h
    cases h
  | cons c s ih =>
    rw [splitOnce] at h
    rw [List.cons_append, splitOnce]
    by_cases hprefix : pat.isPrefixOf (c :: s) = true
    · have hpre := List.isPrefixOf_iff_prefix.mp hprefix
      have hlong : pat.isPrefixOf (c :: (s ++ t)) = true :=
        List.isPrefixOf_iff_prefix.mpr (hpre.trans (List.prefix_append (c :: s) t))
      rw [if_pos hprefix] at h
      obtain ⟨rfl, rfl⟩ := Prod.mk.inj (Option.some.inj h)
      rw [if_pos hlong, ← List.cons_append, List.drop_append_of_le_length hpre.length_le]
    · rw [if_neg hprefix] at h
      obtain ⟨rest, hrest, hparts⟩ := Option.map_eq_some_iff.mp h
      -- a pattern that begins here would be longer than the text it occurs in later
      have hshort : ¬ pat.isPrefixOf (c :: (s ++ t)) = true := by
        intro hlong
        have hpre := List.isPrefixOf_iff_prefix.mp hlong
        rw [← List.cons_append] at hpre
        refine hprefix (List.isPrefixOf_iff_prefix.mpr ?_)
        exact List.prefix_of_prefix_length_le hpre (List.prefix_append _ _)
          ((length_of_splitOnce hrest).trans (Nat.le_succ _))
      obtain ⟨rfl, rfl⟩ := Prod.mk.inj hparts
      rw [if_neg hshort, ih hrest]
      rfl

/-- What comes behind the end of a run does not lengthen it. -/
theorem takeWhile_append_of_neg {α : Type} {p : α → Bool} {d : α} (hd : p d = false)
    (s t : List α) : (s ++ d :: t).takeWhile p = s.takeWhile p := by
  induction s with
  | nil => exact List.takeWhile_cons_of_neg (by rw [hd]; exact Bool.false_ne_true)
  | cons c s ih =>
    rw [List.cons_append, List.takeWhile_cons, List.takeWhile_cons, ih]

/-- **What is appended behind the authority does not change the origin.** -/
theorem origin?_append {url : Text} {o : Origin} (h : origin? hostForm url = some o) {d : Char}
    (hcounts : counts d = true) (hends : endsAuthority d = true) (rest : Text) :
    origin? hostForm (url ++ d :: rest) = some o := by
  have hne : "://".toList ≠ [] := by decide
  unfold origin? at h ⊢
  rw [List.filter_append, List.filter_cons_of_pos hcounts]
  cases hsplit : splitOnce "://".toList (url.filter counts) with
  | none =>
    rw [hsplit] at h
    cases h
  | some parts =>
    rw [hsplit] at h
    rw [splitOnce_append_right hne hsplit]
    show originOf hostForm _ ((parts.2 ++ d :: rest.filter counts).takeWhile _) = some o
    rw [takeWhile_append_of_neg (by rw [hends]; rfl)]
    exact h

end WebOrigin
