import Atlas.TextCut

/-!
# Lines and decimal numbers

A text that is appended to, a line at a time, is read line by line. `scanLines` keeps
the lines that are over apart from the one that is not, so that what an append does to
a text is what it does to its last line. A number in a line is decimal;
what can be said about one whose digits were put together from two writes is that it is
no smaller than what it ends with (`le_of_parseU64_append`), and about one that was cut
that it is no larger (`le_of_parseU64_take`).
-/

namespace Text

/-! ## Lines -/

/-- A line without the carriage return before its line feed; a carriage return elsewhere in
the line stays, as with the source's `lines`. -/
def stripCr (line : Text) : Text :=
  if line.getLast? = some '\r' then line.dropLast else line

/-- The lines that are over, and what is after them, as one scan over the text that keeps
the finished lines and the one in progress. -/
def scanLines (s : Text) : List Text × Text :=
  s.foldl (fun scanned c =>
    if c = '\n' then (scanned.1 ++ [stripCr scanned.2], []) else (scanned.1, scanned.2 ++ [c]))
    ([], [])

/-- The lines of a text; the last one need not be over. -/
def lines (s : Text) : List Text :=
  (scanLines s).1 ++ if (scanLines s).2 = [] then [] else [(scanLines s).2]

theorem stripCr_eq_self {line : Text} (h : line.getLast? ≠ some '\r') : stripCr line = line :=
  if_neg h

/-- **What is appended within a line stays in that line.** -/
theorem scanLines_append {s t : Text} (ht : '\n' ∉ t) :
    scanLines (s ++ t) = ((scanLines s).1, (scanLines s).2 ++ t) := by
  induction t using List.reverseRecOn with
  | nil => rw [List.append_nil, List.append_nil]
  | append_singleton t c ih =>
    have hc : c ≠ '\n' := fun h => ht (List.mem_append_right t (List.mem_singleton.mpr h.symm))
    have hscan := ih fun h => ht (List.mem_append_left _ h)
    unfold scanLines at hscan ⊢
    rw [← List.append_assoc, List.foldl_append, hscan]
    show (if c = '\n' then _ else _) = _
    rw [if_neg hc, List.append_assoc]

/-- A line feed ends the last line. -/
theorem scanLines_append_lineFeed (s : Text) :
    scanLines (s ++ ['\n']) = ((scanLines s).1 ++ [stripCr (scanLines s).2], []) := by
  unfold scanLines
  rw [List.foldl_append]
  rfl

/-! ## Numbers -/

/-- A number in decimal, as a client prints it into a query. -/
def decimal (n : ℕ) : Text := Nat.toDigits 10 n

/-- The digits of a number, without the plus sign they may follow. -/
def unsignedDigits : Text → Text
  | '+' :: s => s
  | s => s

/-- The number a text is, if it fits 64 bits; a plus sign is allowed before the digits, as
in the source's parser, and blanks are not. -/
def parseU64 (s : Text) : Option ℕ :=
  let digits := unsignedDigits s
  if digits ≠ [] ∧ digits.all Char.isDigit ∧ Nat.ofDigitChars 10 digits 0 < 2 ^ 64 then
    some (Nat.ofDigitChars 10 digits 0)
  else none

theorem isDigit_of_mem_decimal {n : ℕ} {c : Char} (h : c ∈ decimal n) : c.isDigit = true :=
  Nat.isDigit_of_mem_toDigits (by decide) (by decide) h

/-- A character that is no digit is not in a number. -/
theorem not_mem_decimal {n : ℕ} {c : Char} (hc : c.isDigit = false) : c ∉ decimal n := by
  intro h
  rw [isDigit_of_mem_decimal h] at hc
  cases hc

theorem decimal_ne_nil (n : ℕ) : decimal n ≠ [] := Nat.toDigits_ne_nil

theorem unsignedDigits_eq_self {s : Text} (h : s.head? ≠ some '+') : unsignedDigits s = s := by
  unfold unsignedDigits
  split
  · exact absurd rfl h
  · rfl

/-- What follows the sign ends with what the text ends with. -/
theorem unsignedDigits_append (s : Text) {t : Text} (ht : '+' ∉ t) :
    ∃ u, unsignedDigits (s ++ t) = u ++ t := by
  cases s with
  | nil =>
    refine ⟨[], unsignedDigits_eq_self fun h => ht ?_⟩
    exact List.mem_of_mem_head? h
  | cons c s =>
    by_cases hc : c = '+'
    · rw [hc]
      exact ⟨s, rfl⟩
    · exact ⟨c :: s, unsignedDigits_eq_self fun h => hc (Option.some.inj h)⟩

theorem parseU64_eq_some {s : Text} {v : ℕ} (h : parseU64 s = some v) :
    (∀ c ∈ unsignedDigits s, c.isDigit = true) ∧
      Nat.ofDigitChars 10 (unsignedDigits s) 0 = v := by
  unfold parseU64 at h
  dsimp only at h
  split at h
  · rename_i hdigits
    exact ⟨List.all_eq_true.mp hdigits.2.1, Option.some.inj h⟩
  · cases h

/-- A number has no character that is neither a digit nor the sign. -/
theorem parseU64_eq_none {s : Text} {c : Char} (hc : c.isDigit = false) (hsign : c ≠ '+')
    (h : c ∈ s) : parseU64 s = none := by
  rcases hparse : parseU64 s with _ | v
  · rfl
  have hmem : c ∈ unsignedDigits s := by
    unfold unsignedDigits
    split
    · exact (List.mem_cons.mp h).resolve_left hsign
    · exact h
  rw [(parseU64_eq_some hparse).1 c hmem] at hc
  cases hc

/-- **A number that ends with the digits of another is no smaller.** -/
theorem le_of_parseU64_append {s : Text} {n v : ℕ} (h : parseU64 (s ++ decimal n) = some v) :
    n ≤ v := by
  obtain ⟨u, hu⟩ := unsignedDigits_append s (not_mem_decimal (n := n) (c := '+') rfl)
  have hv := (parseU64_eq_some h).2
  rw [hu, Nat.ofDigitChars_append, Nat.ofDigitChars_eq_ofDigitChars_zero] at hv
  have hn : Nat.ofDigitChars 10 (decimal n) 0 = n := Nat.ofDigitChars_ten_toDigits
  rw [← hv, hn]
  exact Nat.le_add_left n _

/-- **A number that is cut is no larger.** -/
theorem le_of_parseU64_take {n k v : ℕ} (h : parseU64 ((decimal n).take k) = some v) :
    v ≤ n := by
  have hunsigned : unsignedDigits ((decimal n).take k) = (decimal n).take k :=
    unsignedDigits_eq_self fun hhead =>
      not_mem_decimal rfl (List.mem_of_mem_take (List.mem_of_mem_head? hhead))
  have hv := (parseU64_eq_some h).2
  have hn : Nat.ofDigitChars 10 ((decimal n).take k ++ (decimal n).drop k) 0 = n := by
    rw [List.take_append_drop]
    exact Nat.ofDigitChars_ten_toDigits
  rw [Nat.ofDigitChars_append, Nat.ofDigitChars_eq_ofDigitChars_zero, ← hunsigned, hv] at hn
  have hpos : 0 < 10 ^ ((decimal n).drop k).length := Nat.pow_pos (by decide)
  have hle : v ≤ 10 ^ ((decimal n).drop k).length * v := Nat.le_mul_of_pos_left v hpos
  omega

end Text
