import Atlas.Looping
import Atlas.TextCut

/-!
# Slices of a text by byte offsets

A text is sliced at byte offsets, and a slice that starts or ends within a character, or out of
range, is a fault. An offset is a boundary if there is a text before it and one after it
(`Text.Boundary`). `TailAt s i t` says that `t` is what follows an offset.

Boundaries come from what is found: a pattern starts and ends at one (`find_boundary`), and so
does a byte below 128, which is a character of its own (`tailAt_of_ascii`). A scan over the bytes
that stops at such bytes only therefore never leaves a character cut (`boundary_byteRun`).
-/

namespace Text

open Run

/-! ## Lengths and bytes -/

@[simp] theorem utf8Len_nil : utf8Len [] = 0 := rfl

@[simp] theorem utf8Len_cons (c : Char) (s : Text) :
    utf8Len (c :: s) = c.utf8Size + utf8Len s := rfl

@[simp] theorem utf8Len_append (s t : Text) : utf8Len (s ++ t) = utf8Len s + utf8Len t := by
  unfold utf8Len
  rw [List.map_append, List.sum_append]

theorem utf8_append (s t : Text) : utf8 (s ++ t) = utf8 s ++ utf8 t := List.flatMap_append

theorem length_utf8 (s : Text) : (utf8 s).length = utf8Len s := by
  induction s with
  | nil => rfl
  | cons c s ih =>
    show (String.utf8EncodeChar c ++ utf8 s).length = c.utf8Size + utf8Len s
    rw [List.length_append, String.length_utf8EncodeChar, ih]

/-! ## Boundaries -/

/-- What follows a byte offset of a text, where the offset is a boundary. -/
def TailAt (s : Text) (i : ℕ) (t : Text) : Prop := ∃ pre, s = pre ++ t ∧ utf8Len pre = i

/-- A byte offset that no character lies across, which is where a slice may start or end. -/
def Boundary (s : Text) (i : ℕ) : Prop := ∃ t, TailAt s i t

variable {s t pat : Text} {i j n : ℕ} {c : Char}

theorem tailAt_zero (s : Text) : TailAt s 0 s := ⟨[], rfl, rfl⟩

theorem tailAt_append (s t : Text) : TailAt (s ++ t) (utf8Len s) t := ⟨s, rfl, rfl⟩

theorem boundary_zero (s : Text) : Boundary s 0 := ⟨s, tailAt_zero s⟩

theorem boundary_len (s : Text) : Boundary s (utf8Len s) := ⟨[], s, (List.append_nil s).symm, rfl⟩

theorem TailAt.boundary (h : TailAt s i t) : Boundary s i := ⟨t, h⟩

theorem TailAt.len (h : TailAt s i t) : utf8Len s = i + utf8Len t := by
  obtain ⟨pre, rfl, rfl⟩ := h
  exact utf8Len_append pre t

theorem Boundary.le_len (h : Boundary s i) : i ≤ utf8Len s := by
  obtain ⟨t, ht⟩ := h
  rw [ht.len]
  exact Nat.le_add_right i _

/-- An offset in the tail is one in the text. -/
theorem TailAt.add (h : TailAt s i t) {u : Text} (hu : TailAt t j u) : TailAt s (i + j) u := by
  obtain ⟨pre, rfl, rfl⟩ := h
  obtain ⟨pre', rfl, rfl⟩ := hu
  exact ⟨pre ++ pre', (List.append_assoc _ _ _).symm, utf8Len_append pre pre'⟩

theorem TailAt.boundary_add (h : TailAt s i t) (ht : Boundary t j) : Boundary s (i + j) := by
  obtain ⟨u, hu⟩ := ht
  exact (h.add hu).boundary

theorem TailAt.cons (h : TailAt s i (c :: t)) : TailAt s (i + c.utf8Size) t :=
  h.add (tailAt_append [c] t)

theorem TailAt.append (h : TailAt s i (pat ++ t)) : TailAt s (i + utf8Len pat) t :=
  h.add (tailAt_append pat t)

/-- Two tails of a text, the later of which is one of the earlier. -/
theorem TailAt.tail {u : Text} (ht : TailAt s i t) (hu : TailAt s j u) (hij : i ≤ j) :
    TailAt t (j - i) u := by
  obtain ⟨pre, rfl, rfl⟩ := ht
  obtain ⟨pre', hs, rfl⟩ := hu
  obtain ⟨m, rfl, rfl⟩ | ⟨m, rfl, rfl⟩ := List.append_eq_append_iff.mp hs
  · refine ⟨m, rfl, ?_⟩
    rw [utf8Len_append, Nat.add_sub_cancel_left]
  · rw [utf8Len_append] at hij ⊢
    cases m with
    | nil => exact ⟨[], rfl, by simp⟩
    | cons c m =>
      have hpos := c.utf8Size_pos
      rw [utf8Len_cons] at hij
      omega

/-! ## Slices -/

/-- Cut a text at a byte offset, if that is a boundary. -/
def cutAt : Text → ℕ → Option (Text × Text)
  | s, 0 => some ([], s)
  | [], _ + 1 => none
  | c :: s, n + 1 =>
    if c.utf8Size ≤ n + 1 then
      (cutAt s (n + 1 - c.utf8Size)).map fun parts => (c :: parts.1, parts.2)
    else none

/-- `s[i..]`, which panics where the offset is past the end or inside a character. -/
def sliceFrom (s : Text) (i : ℕ) : Run Text :=
  match cutAt s i with
  | some (_, after) => .ok after
  | none => .error .badSlice

/-- `s[..i]`, which panics where the offset is past the end or inside a character. -/
def sliceTo (s : Text) (i : ℕ) : Run Text :=
  match cutAt s i with
  | some (before, _) => .ok before
  | none => .error .badSlice

/-- `s[i..j]`, which panics where the offsets are in the wrong order or no boundaries. -/
def slice (s : Text) (i j : ℕ) : Run Text :=
  if i ≤ j then do
    let t ← sliceFrom s i
    sliceTo t (j - i)
  else .error .badSlice

theorem cutAt_append (s t : Text) : cutAt (s ++ t) (utf8Len s) = some (s, t) := by
  induction s with
  | nil =>
    show cutAt t 0 = some ([], t)
    rw [cutAt]
  | cons c s ih =>
    have hpos : c.utf8Size + utf8Len s = (c.utf8Size + utf8Len s - 1) + 1 :=
      (Nat.sub_add_cancel (Nat.add_pos_left c.utf8Size_pos _)).symm
    show cutAt (c :: (s ++ t)) (c.utf8Size + utf8Len s) = _
    rw [hpos, cutAt, ← hpos, if_pos (Nat.le_add_right _ _), Nat.add_sub_cancel_left, ih]
    rfl

theorem cutAt_of_tailAt (h : TailAt s i t) : ∃ pre, s = pre ++ t ∧ cutAt s i = some (pre, t) := by
  obtain ⟨pre, rfl, rfl⟩ := h
  exact ⟨pre, rfl, cutAt_append pre t⟩

/-- What is past the end is no boundary. -/
theorem cutAt_eq_none (h : utf8Len s < i) : cutAt s i = none := by
  induction s generalizing i with
  | nil =>
    cases i with
    | zero => exact absurd h (Nat.not_lt_zero _)
    | succ i => rfl
  | cons c s ih =>
    cases i with
    | zero => exact absurd h (Nat.not_lt_zero _)
    | succ i =>
      rw [utf8Len_cons] at h
      unfold cutAt
      split
      · rw [ih (by omega)]
        rfl
      · rfl

theorem sliceFrom_of_tailAt (h : TailAt s i t) : sliceFrom s i = .ok t := by
  obtain ⟨pre, -, hcut⟩ := cutAt_of_tailAt h
  unfold sliceFrom
  rw [hcut]

theorem sliceFrom_eq_error (h : utf8Len s < i) : sliceFrom s i = .error .badSlice := by
  unfold sliceFrom
  rw [cutAt_eq_none h]

/-- **A slice from a boundary** is what follows it. -/
theorem sliceFrom_returns (h : Boundary s i) : Returns (sliceFrom s i) (TailAt s i) := by
  obtain ⟨t, ht⟩ := h
  exact ⟨t, sliceFrom_of_tailAt ht, ht⟩

theorem sliceTo_returns (h : Boundary s i) :
    Returns (sliceTo s i) fun t => ∃ rest, s = t ++ rest ∧ utf8Len t = i := by
  obtain ⟨t, ht⟩ := h
  obtain ⟨pre, hs, hcut⟩ := cutAt_of_tailAt ht
  refine ⟨pre, ?_, t, hs, ?_⟩
  · unfold sliceTo
    rw [hcut]
  · obtain ⟨pre', hs', hlen⟩ := ht
    rw [← List.append_cancel_right (hs.symm.trans hs')] at hlen
    exact hlen

/-- **A slice between two boundaries** is what lies between them. -/
theorem slice_returns (hi : Boundary s i) (hj : Boundary s j) (hij : i ≤ j) :
    Returns (slice s i j) fun t => utf8Len t = j - i ∧ ∃ rest, TailAt s i (t ++ rest) := by
  obtain ⟨u, hu⟩ := hj
  unfold slice
  rw [if_pos hij]
  refine (sliceFrom_returns hi).bind fun t ht => ?_
  refine (sliceTo_returns (ht.tail hu hij).boundary).mono ?_
  rintro v ⟨rest, rfl, hlen⟩
  exact ⟨hlen, rest, ht⟩

/-! ## Slices of characters -/

/-- `chars[i..]` on a slice of characters, which panics past its end. -/
def charsFrom (chars : Text) (i : ℕ) : Run Text :=
  if i ≤ chars.length then .ok (chars.drop i) else .error .badSlice

/-- `chars[i..j]` on a slice of characters, which panics past its end or in the wrong order. -/
def charsBetween (chars : Text) (i j : ℕ) : Run Text :=
  if i ≤ j ∧ j ≤ chars.length then .ok ((chars.drop i).take (j - i)) else .error .badSlice

variable {chars : Text}

theorem charsFrom_returns (h : i ≤ chars.length) :
    Returns (charsFrom chars i) fun t => t = chars.drop i := ⟨_, if_pos h, rfl⟩

theorem charsBetween_returns (hij : i ≤ j) (hj : j ≤ chars.length) :
    Returns (charsBetween chars i j) fun t => t = (chars.drop i).take (j - i) :=
  ⟨_, if_pos ⟨hij, hj⟩, rfl⟩

/-! ## Searching -/

/-- The byte offset of the first occurrence of a pattern, counted in the bytes of UTF-8, as
the source slices by them. -/
def find (pat s : Text) : Option ℕ := (splitOnce pat s).map fun parts => utf8Len parts.1

/-- The byte offset of the first occurrence of a pattern from an offset on. -/
def findFrom (s : Text) (i : ℕ) (pat : Text) : Run (Option ℕ) := do
  let rest ← sliceFrom s i
  pure ((find pat rest).map (i + ·))

/-- Replace the occurrences of a pattern from left to right; so many characters are skipped
first. -/
def replaceFrom (pat new : Text) : ℕ → Text → Text
  | _, [] => []
  | skip + 1, _ :: s => replaceFrom pat new skip s
  | 0, c :: s =>
    if pat.isPrefixOf (c :: s) then new ++ replaceFrom pat new (pat.length - 1) s
    else c :: replaceFrom pat new 0 s

/-- Replace every occurrence of a pattern, from left to right and without overlaps. -/
def replaceAll (pat new s : Text) : Text := replaceFrom pat new 0 s

/-- **A pattern starts and ends at boundaries.** -/
theorem find_tailAt (h : find pat s = some i) : ∃ t, TailAt s i (pat ++ t) := by
  obtain ⟨⟨pre, post⟩, hparts, rfl⟩ := Option.map_eq_some_iff.mp h
  exact ⟨post, pre, append_of_splitOnce hparts, rfl⟩

theorem findFrom_returns (h : Boundary s i) :
    Returns (findFrom s i pat) fun found =>
      ∀ j ∈ found, i ≤ j ∧ ∃ t, TailAt s j (pat ++ t) := by
  refine (sliceFrom_returns h).bind fun t ht => returns_pure ?_
  intro j hj
  obtain ⟨o, ho, rfl⟩ := Option.map_eq_some_iff.mp hj
  obtain ⟨u, hu⟩ := find_tailAt ho
  exact ⟨Nat.le_add_right i o, u, ht.add hu⟩

theorem findFrom_eq_error (h : utf8Len s < i) : findFrom s i pat = .error .badSlice := by
  unfold findFrom
  rw [sliceFrom_eq_error h]
  rfl

/-! ## Bytes -/

/-- `s.as_bytes()[i]`, where a missing byte is one past the end. -/
def byteAt (s : Text) (i : ℕ) : Option UInt8 := (utf8 s)[i]?

/-- How many bytes from an offset on satisfy a condition, without a gap; it stops at the
first byte that does not, or at the end. -/
def byteRun (p : UInt8 → Bool) (s : Text) (i : ℕ) : ℕ :=
  (((utf8 s).drop i).takeWhile p).length

theorem TailAt.drop_utf8 (h : TailAt s i t) : (utf8 s).drop i = utf8 t := by
  obtain ⟨pre, rfl, rfl⟩ := h
  rw [utf8_append, ← length_utf8, List.drop_left]

theorem TailAt.byteAt_add (h : TailAt s i t) : byteAt s (i + j) = byteAt t j := by
  unfold byteAt
  rw [← h.drop_utf8, List.getElem?_drop]

theorem TailAt.byteRun_eq (h : TailAt s i t) (p : UInt8 → Bool) :
    byteRun p t 0 = byteRun p s i := by
  unfold byteRun
  rw [h.drop_utf8, List.drop_zero]

/-- A character below 128 is the byte at its offset. -/
theorem TailAt.byteAt (h : TailAt s i (c :: t)) (hc : c.toNat < 128) :
    byteAt s i = some (UInt8.ofNat c.toNat) := by
  have hadd := h.byteAt_add (j := 0)
  rw [Nat.add_zero] at hadd
  rw [hadd]
  show (String.utf8EncodeChar c ++ utf8 t)[0]? = _
  rw [utf8EncodeChar_ascii c hc]
  rfl

/-- **A run ends at the first character below 128 that is not of it.** -/
theorem TailAt.byteRun {u : Text} {p : UInt8 → Bool} (h : TailAt s i (t ++ c :: u))
    (ht : ∀ b ∈ utf8 t, p b = true) (hc : c.toNat < 128) (hp : p (UInt8.ofNat c.toNat) = false) :
    byteRun p s i = utf8Len t := by
  have hcons : utf8 (c :: u) = UInt8.ofNat c.toNat :: utf8 u := by
    show String.utf8EncodeChar c ++ utf8 u = _
    rw [utf8EncodeChar_ascii c hc]
    rfl
  unfold Text.byteRun
  rw [h.drop_utf8, utf8_append, List.takeWhile_append_of_pos ht, hcons,
    List.takeWhile_cons_of_neg (by rw [hp]; exact Bool.false_ne_true), List.append_nil, length_utf8]

theorem Boundary.append (h : Boundary t j) (u : Text) : Boundary (t ++ u) j := by
  obtain ⟨v, pre, rfl, hlen⟩ := h
  exact ⟨v ++ u, pre, List.append_assoc _ _ _, hlen⟩

theorem byteAt_append (hj : j < utf8Len t) (u : Text) : byteAt (t ++ u) j = byteAt t j := by
  unfold byteAt
  rw [utf8_append, List.getElem?_append_left (by rwa [length_utf8])]

/-- **A byte below 128 is a character.** -/
theorem tailAt_of_ascii {b : UInt8} (h : byteAt s i = some b) (hb : b.toNat < 128) :
    ∃ c t, TailAt s i (c :: t) ∧ c.utf8Size = 1 ∧ c.toNat = b.toNat := by
  induction s generalizing i with
  | nil => cases h
  | cons c s ih =>
    unfold byteAt at h
    have hutf8 : utf8 (c :: s) = String.utf8EncodeChar c ++ utf8 s := rfl
    rw [hutf8, List.getElem?_append] at h
    split at h
    · rename_i hi
      have hmem := List.mem_of_getElem? h
      have hascii : c.toNat < 128 := by
        by_contra hlarge
        exact absurd (utf8EncodeChar_large (Nat.le_of_not_lt hlarge) b hmem) (Nat.not_le.mpr hb)
      have hsize : c.utf8Size = 1 := by
        rw [← String.length_utf8EncodeChar, utf8EncodeChar_ascii c hascii]
        rfl
      rw [utf8EncodeChar_ascii c hascii] at hi hmem
      have hzero : i = 0 := Nat.lt_one_iff.mp hi
      subst hzero
      rw [List.mem_singleton.mp hmem, UInt8.toNat_ofNat']
      exact ⟨c, s, tailAt_zero _, hsize, (Nat.mod_eq_of_lt (hascii.trans (by decide))).symm⟩
    · rename_i hi
      rw [String.length_utf8EncodeChar] at h hi
      obtain ⟨d, t, ht, hd⟩ := ih h
      have htail := TailAt.add (tailAt_append [c] s) ht
      rw [show utf8Len [c] = c.utf8Size from rfl,
        Nat.add_sub_cancel' (Nat.le_of_not_lt hi)] at htail
      exact ⟨d, t, htail, hd⟩

theorem boundary_of_ascii {b : UInt8} (h : byteAt s i = some b) (hb : b.toNat < 128) :
    Boundary s i := by
  obtain ⟨c, t, ht, -⟩ := tailAt_of_ascii h hb
  exact ht.boundary

theorem boundary_succ_of_ascii {b : UInt8} (h : byteAt s i = some b) (hb : b.toNat < 128) :
    Boundary s (i + 1) := by
  obtain ⟨c, t, ht, hsize, -⟩ := tailAt_of_ascii h hb
  have hnext := ht.cons
  rw [hsize] at hnext
  exact hnext.boundary

theorem byteAt_lt {b : UInt8} (h : byteAt s i = some b) : i < utf8Len s := by
  rw [← length_utf8]
  exact (List.getElem?_eq_some_iff.mp h).1

/-- Each byte of a run satisfies the condition. -/
theorem byteAt_of_lt_byteRun {p : UInt8 → Bool} (h : n < byteRun p s i) :
    ∃ b, byteAt s (i + n) = some b ∧ p b = true := by
  obtain ⟨rest, hrest⟩ := List.takeWhile_prefix p (l := (utf8 s).drop i)
  obtain ⟨b, hb⟩ : ∃ b, (((utf8 s).drop i).takeWhile p)[n]? = some b :=
    ⟨_, List.getElem?_eq_getElem h⟩
  refine ⟨b, ?_, List.mem_takeWhile_imp (List.mem_of_getElem? hb)⟩
  unfold byteAt
  rw [← List.getElem?_drop, ← hrest, List.getElem?_append_left h, hb]

/-- **A run of bytes below 128 is one of characters**: every offset in it is a boundary. -/
theorem boundary_byteRun {p : UInt8 → Bool} (hp : ∀ b, p b = true → b.toNat < 128)
    (hi : Boundary s i) (h : n ≤ byteRun p s i) : Boundary s (i + n) := by
  cases n with
  | zero => exact hi
  | succ n =>
    obtain ⟨b, hbyte, hb⟩ := byteAt_of_lt_byteRun h
    exact boundary_succ_of_ascii hbyte (hp b hb)

/-- A run is over at the end of the text, or at a byte that does not satisfy the condition. -/
theorem byteRun_end (p : UInt8 → Bool) (hi : i ≤ utf8Len s) :
    i + byteRun p s i = utf8Len s ∨
      ∃ b, byteAt s (i + byteRun p s i) = some b ∧ p b = false := by
  have hsplit := List.takeWhile_append_dropWhile (p := p) (l := (utf8 s).drop i)
  cases hrest : ((utf8 s).drop i).dropWhile p with
  | nil =>
    left
    rw [hrest, List.append_nil] at hsplit
    unfold byteRun
    rw [hsplit, List.length_drop, length_utf8]
    exact Nat.add_sub_cancel' hi
  | cons b rest =>
    right
    refine ⟨b, ?_, ?_⟩
    · unfold byteAt
      rw [← List.getElem?_drop, ← hsplit, hrest]
      unfold byteRun
      rw [List.getElem?_append_right le_rfl, Nat.sub_self]
      rfl
    · have hhead := List.head?_dropWhile_not p ((utf8 s).drop i)
      rw [hrest] at hhead
      simpa using hhead

/-- **A run that only bytes below 128 end** ends at a boundary. -/
theorem boundary_byteRun_end {p : UInt8 → Bool} (hp : ∀ b, p b = false → b.toNat < 128)
    (hi : i ≤ utf8Len s) : Boundary s (i + byteRun p s i) := by
  obtain hend | ⟨b, hbyte, hb⟩ := byteRun_end p hi
  · rw [hend]
    exact boundary_len s
  · exact boundary_of_ascii hbyte (hp b hb)

end Text
