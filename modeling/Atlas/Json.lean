import Atlas.Text

/-!
# JSON

A JSON document as a tree, in the order it is written. A number is the text it is
printed as. `Json.print` writes a tree without any space, and is injective.

An object may have a member twice. What a table of its members keeps is the last,
and sorted by name: that is `Json.canonical`. Two objects have the same canonical
form exactly if every name leads to members with the same canonical form
(`Json.canonical_obj_inj`).
-/

open Text

/-- The characters a number is printed with: digits, signs, the point and the exponent's letter. -/
def isNumberChar (c : Char) : Bool := ('0' ≤ c && c ≤ '9') || "+-.eE".toList.contains c

/-- A number, by the text it is printed as. -/
@[ext] structure JsonNumber where
  text : Text
  nonempty : text ≠ []
  chars : text.all isNumberChar = true
  deriving DecidableEq, Repr

/-- A JSON value. The fields of an object are in the order in which they stand. -/
inductive Json where
  | null
  | bool (b : Bool)
  | num (n : JsonNumber)
  | str (s : Text)
  | arr (items : List Json)
  /-- The members, as often and in the order they are written. -/
  | obj (fields : List (Text × Json))
  deriving Repr

namespace Json

/-! ## Numbers -/

theorem isNumberChar_of_isDigit {c : Char} (h : c.isDigit = true) : isNumberChar c = true := by
  unfold Char.isDigit at h
  unfold isNumberChar
  rw [Bool.or_eq_true_iff]
  exact Or.inl h

theorem natRepr_ne_nil (n : ℕ) : n.repr.toList ≠ [] := by
  rw [Nat.toList_repr]
  exact Nat.toDigits_ne_nil

theorem natRepr_chars (n : ℕ) : n.repr.toList.all isNumberChar = true := by
  rw [List.all_eq_true, Nat.toList_repr]
  exact fun c hc => isNumberChar_of_isDigit (Nat.isDigit_of_mem_toDigits (by decide) (by decide) hc)

/-- A natural number as a JSON number, in decimal without leading zeros. -/
def ofNat (n : ℕ) : JsonNumber := ⟨n.repr.toList, natRepr_ne_nil n, natRepr_chars n⟩

theorem ofNat_injective : Function.Injective ofNat := by
  intro n m h
  have htext : n.repr.toList = m.repr.toList := congrArg JsonNumber.text h
  rw [Nat.toList_repr, Nat.toList_repr] at htext
  have hvalue := congrArg (Nat.ofDigitChars 10 · 0) htext
  simpa using hvalue

/-- An integer as a JSON number, with a minus sign where it is negative. -/
def ofInt : ℤ → JsonNumber
  | .ofNat n => ofNat n
  | .negSucc n => ⟨'-' :: (n + 1).repr.toList, List.cons_ne_nil _ _,
      List.all_cons.trans (natRepr_chars (n + 1))⟩

theorem ofInt_injective : Function.Injective ofInt := by
  have hsign : ∀ n m : ℕ, (ofNat n).text ≠ '-' :: (m + 1).repr.toList := by
    intro n m h
    have hmem : '-' ∈ (ofNat n).text := h ▸ List.mem_cons_self
    have hdigits : '-' ∈ Nat.toDigits 10 n := Nat.toList_repr ▸ hmem
    exact absurd (Nat.isDigit_of_mem_toDigits (by decide) (by decide) hdigits) (by decide)
  intro i k h
  have htext := congrArg JsonNumber.text h
  cases i with
  | ofNat n =>
    cases k with
    | ofNat m => exact congrArg Int.ofNat (ofNat_injective h)
    | negSucc m => exact absurd htext (hsign n m)
  | negSucc n =>
    cases k with
    | ofNat m => exact absurd htext.symm (hsign m n)
    | negSucc m =>
      have hnumber : ofNat (n + 1) = ofNat (m + 1) :=
        JsonNumber.ext (List.cons.inj htext).2
      exact congrArg Int.negSucc (Nat.succ.inj (ofNat_injective hnumber))

/-! ## Printing -/

/-- A character inside a string: itself, or an escape for quotes, backslashes and control
characters. -/
def escapeChar (c : Char) : Text :=
  if c = '"' then ['\\', '"']
  else if c = '\\' then ['\\', '\\']
  else if c.toNat = 0x08 then ['\\', 'b']
  else if c.toNat = 0x09 then ['\\', 't']
  else if c.toNat = 0x0A then ['\\', 'n']
  else if c.toNat = 0x0C then ['\\', 'f']
  else if c.toNat = 0x0D then ['\\', 'r']
  else if c.toNat < 0x20 then
    ['\\', 'u', '0', '0', hexDigit (c.toNat / 16), hexDigit (c.toNat % 16)]
  else [c]

/-- A string in quotes, with its special characters escaped; characters outside ASCII are
written as they are, as the serializer of the source does. -/
def printStr (s : Text) : Text := '"' :: (s.flatMap escapeChar ++ ['"'])

/-- What stands before an item: nothing before the first; every later one is preceded by a
comma, without blanks, as in the compact form. -/
def separator (first : Bool) : Text := if first then [] else [',']

mutual

/-- A document without any space, as the serialiser's compact form prints it. -/
def print : Json → Text
  | null => "null".toList
  | bool true => "true".toList
  | bool false => "false".toList
  | num n => n.text
  | str s => printStr s
  | arr items => '[' :: printItems true items
  | obj fields => '{' :: printFields true fields

/-- The items of an array up to its end; the first has no comma before it. -/
def printItems : Bool → List Json → Text
  | _, [] => [']']
  | first, j :: items => separator first ++ (j.print ++ printItems false items)

/-- The fields of an object up to its end; the first has no comma before it. -/
def printFields : Bool → List (Text × Json) → Text
  | _, [] => ['}']
  | first, (k, j) :: fields =>
    separator first ++ (printStr k ++ ':' :: (j.print ++ printFields false fields))

end

/-- A document as bytes, in the compact form and in UTF-8. -/
def toVec (j : Json) : Bytes := j.print.utf8

/-! ## Printing is injective -/

/-- The character that an escape stands for, and what follows it; after `\u` only two zeros
and two digits are read, as the printer writes them. -/
def unescapeChar : Text → Option (Char × Text)
  | '\\' :: 'b' :: r => some (Char.ofNat 0x08, r)
  | '\\' :: 't' :: r => some (Char.ofNat 0x09, r)
  | '\\' :: 'n' :: r => some (Char.ofNat 0x0A, r)
  | '\\' :: 'f' :: r => some (Char.ofNat 0x0C, r)
  | '\\' :: 'r' :: r => some (Char.ofNat 0x0D, r)
  | '\\' :: 'u' :: '0' :: '0' :: h :: l :: r =>
    some (Char.ofNat ((hexValue h).getD 0 * 16 + (hexValue l).getD 0), r)
  | '\\' :: c :: r => some (c, r)
  | c :: r => some (c, r)
  | [] => none

theorem unescapeChar_plain {c : Char} (h : c ≠ '\\') (r : Text) :
    unescapeChar (c :: r) = some (c, r) := by
  unfold unescapeChar
  split <;> simp_all

/-- An escape can be told from what follows it. -/
theorem unescapeChar_escapeChar (c : Char) (r : Text) :
    unescapeChar (escapeChar c ++ r) = some (c, r) := by
  have hcode : ∀ n, c.toNat = n → c = Char.ofNat n := fun n h => h ▸ (Char.ofNat_toNat c).symm
  unfold escapeChar
  split
  · rename_i h
    rw [h]
    rfl
  split
  · rename_i h
    rw [h]
    rfl
  split
  · rename_i h
    rw [hcode _ h]
    rfl
  split
  · rename_i h
    rw [hcode _ h]
    rfl
  split
  · rename_i h
    rw [hcode _ h]
    rfl
  split
  · rename_i h
    rw [hcode _ h]
    rfl
  split
  · rename_i h
    rw [hcode _ h]
    rfl
  split
  · rename_i h
    have hhigh : c.toNat / 16 < 16 := Nat.div_lt_of_lt_mul (lt_trans h (by decide))
    show some (Char.ofNat ((hexValue (hexDigit (c.toNat / 16))).getD 0 * 16 +
      (hexValue (hexDigit (c.toNat % 16))).getD 0), r) = _
    rw [hexValue_hexDigit _ hhigh, hexValue_hexDigit _ (Nat.mod_lt _ (by decide))]
    show some (Char.ofNat (c.toNat / 16 * 16 + c.toNat % 16), r) = _
    rw [Nat.div_add_mod', Char.ofNat_toNat]
  · rename_i hslash _ _ _ _ _ _
    exact unescapeChar_plain hslash r

/-- No escape starts like the end of a string. -/
theorem escapeChar_append_ne (c : Char) (r r' : Text) : escapeChar c ++ r ≠ '"' :: r' := by
  intro h
  have hc := unescapeChar_escapeChar c r
  rw [h, unescapeChar_plain (by decide)] at hc
  obtain ⟨rfl, -⟩ := Prod.mk.inj (Option.some.inj hc)
  exact absurd (List.cons.inj h).1 (by decide)

/-- **A string** can be told from what follows it. -/
theorem printStr_append_inj {s s' rest rest' : Text}
    (h : printStr s ++ rest = printStr s' ++ rest') : s = s' ∧ rest = rest' := by
  have htail : s.flatMap escapeChar ++ '"' :: rest = s'.flatMap escapeChar ++ '"' :: rest' := by
    unfold printStr at h
    rw [List.cons_append, List.cons_append, List.append_assoc, List.append_assoc] at h
    exact (List.cons.inj h).2
  clear h
  induction s generalizing s' with
  | nil =>
    cases s' with
    | nil => exact ⟨rfl, (List.cons.inj htail).2⟩
    | cons c' s' =>
      rw [List.flatMap_cons, List.append_assoc] at htail
      exact absurd htail.symm (escapeChar_append_ne _ _ _)
  | cons c s ih =>
    cases s' with
    | nil =>
      rw [List.flatMap_cons, List.append_assoc] at htail
      exact absurd htail (escapeChar_append_ne _ _ _)
    | cons c' s' =>
      rw [List.flatMap_cons, List.flatMap_cons, List.append_assoc, List.append_assoc] at htail
      have hboth := congrArg unescapeChar htail
      rw [unescapeChar_escapeChar, unescapeChar_escapeChar] at hboth
      obtain ⟨rfl, hrest⟩ := Prod.mk.inj (Option.some.inj hboth)
      obtain ⟨rfl, hend⟩ := ih hrest
      exact ⟨rfl, hend⟩

/-- What follows a number does not go on with it: the end of the text or a character that no
number has, so that the reader stops there. -/
def EndsNumber (rest : Text) : Prop := ∀ c ∈ rest.head?, isNumberChar c = false

/-- **A number** can be told from what follows it. -/
theorem text_append_inj {n n' : JsonNumber} {rest rest' : Text} (hrest : EndsNumber rest)
    (hrest' : EndsNumber rest') (h : n.text ++ rest = n'.text ++ rest') :
    n = n' ∧ rest = rest' := by
  have htake : ∀ (n : JsonNumber) (rest : Text), EndsNumber rest →
      (n.text ++ rest).takeWhile isNumberChar = n.text := by
    intro n rest hrest
    rw [List.takeWhile_append_of_pos (List.all_eq_true.mp n.chars)]
    cases rest with
    | nil => exact List.append_nil _
    | cons c rest =>
      rw [List.takeWhile_cons_of_neg (Bool.eq_false_iff.mp (hrest c rfl)), List.append_nil]
  have htext : n.text = n'.text := by rw [← htake n rest hrest, h, htake n' rest' hrest']
  refine ⟨?_, List.append_cancel_left (htext ▸ h)⟩
  cases n
  cases n'
  cases htext
  rfl

/-- What a document is, by the character it starts with; two documents of different kinds
are therefore never printed as the same text. -/
def kindOf (c : Char) : ℕ :=
  if c = 'n' then 0 else if c = 't' then 1 else if c = 'f' then 2 else if c = '"' then 3
  else if c = '[' then 4 else if c = '{' then 5 else if isNumberChar c then 6 else 7

/-- What tells the kind of a value by the first character of its text. -/
def kind : Json → ℕ
  | null => 0
  | bool true => 1
  | bool false => 2
  | num _ => 6
  | str _ => 3
  | arr _ => 4
  | obj _ => 5

theorem kindOf_number {c : Char} (h : isNumberChar c = true) : kindOf c = 6 := by
  have hne : ∀ d, isNumberChar d = false → c ≠ d := by
    rintro d hd rfl
    rw [h] at hd
    cases hd
  unfold kindOf
  rw [if_neg (hne _ (by decide)), if_neg (hne _ (by decide)), if_neg (hne _ (by decide)),
    if_neg (hne _ (by decide)), if_neg (hne _ (by decide)), if_neg (hne _ (by decide)), if_pos h]

/-- A document starts with a character of its kind. -/
theorem print_head (j : Json) : ∃ c r, j.print = c :: r ∧ kindOf c = j.kind := by
  match j with
  | null => exact ⟨_, _, rfl, rfl⟩
  | bool true => exact ⟨_, _, rfl, rfl⟩
  | bool false => exact ⟨_, _, rfl, rfl⟩
  | num n =>
    obtain ⟨c, r, hcons⟩ := List.exists_cons_of_ne_nil n.nonempty
    refine ⟨c, r, by rw [print, hcons], kindOf_number ?_⟩
    exact List.all_eq_true.mp n.chars c (hcons ▸ List.mem_cons_self)
  | str s => exact ⟨_, _, by rw [print, printStr], rfl⟩
  | arr items => exact ⟨_, _, by rw [print], rfl⟩
  | obj fields => exact ⟨_, _, by rw [print], rfl⟩

theorem kind_eq_of_print {j j' : Json} {rest rest' : Text}
    (h : j.print ++ rest = j'.print ++ rest') : j.kind = j'.kind := by
  obtain ⟨c, r, hj, hc⟩ := print_head j
  obtain ⟨c', r', hj', hc'⟩ := print_head j'
  rw [hj, hj', List.cons_append, List.cons_append] at h
  rw [← hc, ← hc', (List.cons.inj h).1]

/-- No document starts like this. -/
theorem print_append_ne {c : Char} (hc : kindOf c = 7) (j : Json) (rest rest' : Text) :
    j.print ++ rest ≠ c :: rest' := by
  intro h
  obtain ⟨d, r, hj, hd⟩ := print_head j
  rw [hj, List.cons_append] at h
  rw [(List.cons.inj h).1, hc] at hd
  match j with
  | null => cases hd
  | bool true => cases hd
  | bool false => cases hd
  | num _ => cases hd
  | str _ => cases hd
  | arr _ => cases hd
  | obj _ => cases hd

/-- A list of items does not start with its end. -/
theorem printItems_cons_ne (first : Bool) (j : Json) (items : List Json) (rest rest' : Text) :
    printItems first (j :: items) ++ rest ≠ printItems first [] ++ rest' := by
  rw [printItems, printItems, List.append_assoc, List.append_assoc]
  cases first with
  | true => exact print_append_ne (by decide) _ _ _
  | false => exact fun h => absurd (List.cons.inj h).1 (by decide)

/-- A list of members does not start with its end. -/
theorem printFields_cons_ne (first : Bool) (f : Text × Json) (fields : List (Text × Json))
    (rest rest' : Text) :
    printFields first (f :: fields) ++ rest ≠ printFields first [] ++ rest' := by
  rw [printFields, printFields, List.append_assoc]
  cases first with
  | true => exact fun h => absurd (List.cons.inj h).1 (by decide)
  | false => exact fun h => absurd (List.cons.inj h).1 (by decide)

/-- What follows an item ends a number. -/
theorem endsNumber_printItems (items : List Json) (rest : Text) :
    EndsNumber (printItems false items ++ rest) := by
  intro c hc
  cases items with
  | nil => exact Option.some.inj hc ▸ rfl
  | cons j items => exact Option.some.inj hc ▸ rfl

/-- What follows a member ends a number. -/
theorem endsNumber_printFields (fields : List (Text × Json)) (rest : Text) :
    EndsNumber (printFields false fields ++ rest) := by
  intro c hc
  cases fields with
  | nil => exact Option.some.inj hc ▸ rfl
  | cons f fields => exact Option.some.inj hc ▸ rfl

mutual

/-- **A document** can be told from what follows it, unless that goes on with a number. -/
theorem print_append_inj : ∀ (j j' : Json) {rest rest' : Text}, EndsNumber rest →
    EndsNumber rest' → j.print ++ rest = j'.print ++ rest' → j = j' ∧ rest = rest'
  -- the first character tells the kinds apart; inside one kind the printer of that kind is
  -- injective, and arrays and objects go down into their items
  | null, j', rest, rest', _, _, h => by
    have hkind := kind_eq_of_print h
    match j' with
    | null => exact ⟨rfl, List.append_cancel_left h⟩
    | bool true => cases hkind
    | bool false => cases hkind
    | num _ => cases hkind
    | str _ => cases hkind
    | arr _ => cases hkind
    | obj _ => cases hkind
  | bool true, j', rest, rest', _, _, h => by
    have hkind := kind_eq_of_print h
    match j' with
    | null => cases hkind
    | bool true => exact ⟨rfl, List.append_cancel_left h⟩
    | bool false => cases hkind
    | num _ => cases hkind
    | str _ => cases hkind
    | arr _ => cases hkind
    | obj _ => cases hkind
  | bool false, j', rest, rest', _, _, h => by
    have hkind := kind_eq_of_print h
    match j' with
    | null => cases hkind
    | bool true => cases hkind
    | bool false => exact ⟨rfl, List.append_cancel_left h⟩
    | num _ => cases hkind
    | str _ => cases hkind
    | arr _ => cases hkind
    | obj _ => cases hkind
  -- a number has no end mark of its own: what follows must not be read as part of it
  | num n, j', rest, rest', hrest, hrest', h => by
    have hkind := kind_eq_of_print h
    match j' with
    | null => cases hkind
    | bool true => cases hkind
    | bool false => cases hkind
    | num n' =>
      rw [print, print] at h
      obtain ⟨rfl, hend⟩ := text_append_inj hrest hrest' h
      exact ⟨rfl, hend⟩
    | str _ => cases hkind
    | arr _ => cases hkind
    | obj _ => cases hkind
  | str s, j', rest, rest', _, _, h => by
    have hkind := kind_eq_of_print h
    match j' with
    | null => cases hkind
    | bool true => cases hkind
    | bool false => cases hkind
    | num _ => cases hkind
    | str s' =>
      rw [print, print] at h
      obtain ⟨rfl, hend⟩ := printStr_append_inj h
      exact ⟨rfl, hend⟩
    | arr _ => cases hkind
    | obj _ => cases hkind
  | arr items, j', rest, rest', _, _, h => by
    have hkind := kind_eq_of_print h
    match j' with
    | null => cases hkind
    | bool true => cases hkind
    | bool false => cases hkind
    | num _ => cases hkind
    | str _ => cases hkind
    | arr items' =>
      rw [print, print, List.cons_append, List.cons_append] at h
      obtain ⟨rfl, hend⟩ := printItems_append_inj true items items' (List.cons.inj h).2
      exact ⟨rfl, hend⟩
    | obj _ => cases hkind
  | obj fields, j', rest, rest', _, _, h => by
    have hkind := kind_eq_of_print h
    match j' with
    | null => cases hkind
    | bool true => cases hkind
    | bool false => cases hkind
    | num _ => cases hkind
    | str _ => cases hkind
    | arr _ => cases hkind
    | obj fields' =>
      rw [print, print, List.cons_append, List.cons_append] at h
      obtain ⟨rfl, hend⟩ := printFields_append_inj true fields fields' (List.cons.inj h).2
      exact ⟨rfl, hend⟩

theorem printItems_append_inj : ∀ (first : Bool) (items items' : List Json) {rest rest' : Text},
    printItems first items ++ rest = printItems first items' ++ rest' →
      items = items' ∧ rest = rest'
  | first, [], [], rest, rest', h => ⟨rfl, (List.cons.inj h).2⟩
  | first, [], j' :: items', rest, rest', h => absurd h.symm (printItems_cons_ne first j' items' _ _)
  | first, j :: items, [], rest, rest', h => absurd h (printItems_cons_ne first j items _ _)
  | first, j :: items, j' :: items', rest, rest', h => by
    rw [printItems, printItems, List.append_assoc, List.append_assoc, List.append_assoc,
      List.append_assoc] at h
    obtain ⟨rfl, hitems⟩ := print_append_inj j j' (endsNumber_printItems items rest)
      (endsNumber_printItems items' rest') (List.append_cancel_left h)
    obtain ⟨rfl, hend⟩ := printItems_append_inj false items items' hitems
    exact ⟨rfl, hend⟩

theorem printFields_append_inj : ∀ (first : Bool) (fields fields' : List (Text × Json))
    {rest rest' : Text}, printFields first fields ++ rest = printFields first fields' ++ rest' →
      fields = fields' ∧ rest = rest'
  | first, [], [], rest, rest', h => ⟨rfl, (List.cons.inj h).2⟩
  | first, [], f' :: fields', rest, rest', h =>
    absurd h.symm (printFields_cons_ne first f' fields' _ _)
  | first, f :: fields, [], rest, rest', h => absurd h (printFields_cons_ne first f fields _ _)
  | first, (k, j) :: fields, (k', j') :: fields', rest, rest', h => by
    rw [printFields, printFields, List.append_assoc, List.append_assoc, List.append_assoc,
      List.append_assoc, List.cons_append, List.cons_append, List.append_assoc,
      List.append_assoc] at h
    obtain ⟨rfl, hvalue⟩ := printStr_append_inj (List.append_cancel_left h)
    obtain ⟨rfl, hfields⟩ := print_append_inj j j' (endsNumber_printFields fields rest)
      (endsNumber_printFields fields' rest') (List.cons.inj hvalue).2
    obtain ⟨rfl, hend⟩ := printFields_append_inj false fields fields' hfields
    exact ⟨rfl, hend⟩

end

/-- **Two documents that print alike are the same.** -/
theorem toVec_injective : Function.Injective toVec := by
  intro j j' h
  have hprint := utf8_injective h
  have hnil : EndsNumber [] := by
    intro c hc
    cases hc
  exact (print_append_inj j j' hnil hnil (by rw [hprint])).1

/-! ## The canonical form -/

section Fields

variable {β γ : Type}

/-- Insert a member into a sorted table, unless there is one of that name. -/
def insertNew (k : Text) (v : β) : List (Text × β) → List (Text × β)
  | [] => [(k, v)]
  | (k', v') :: fields =>
    if k = k' then (k', v') :: fields
    else if k < k' then (k, v) :: (k', v') :: fields
    else (k', v') :: insertNew k v fields

/-- The last member of a name, which is the one a reader keeps where a name is there twice. -/
def member (k : Text) : List (Text × β) → Option β
  | [] => none
  | (k', v) :: fields => (member k fields).or (if k = k' then some v else none)

/-- A table is sorted by name, and no name is there twice. -/
def Sorted (fields : List (Text × β)) : Prop := fields.Pairwise fun f f' => f.1 < f'.1

theorem mem_insertNew {k : Text} {v : β} {fields : List (Text × β)} {f : Text × β}
    (h : f ∈ insertNew k v fields) : f = (k, v) ∨ f ∈ fields := by
  induction fields with
  | nil => exact Or.inl (List.mem_singleton.mp h)
  | cons f' fields ih =>
    rw [insertNew] at h
    split at h
    · exact Or.inr h
    · split at h
      · exact List.mem_cons.mp h
      · obtain rfl | hmem := List.mem_cons.mp h
        · exact Or.inr List.mem_cons_self
        · exact (ih hmem).imp_right (List.mem_cons_of_mem _)

theorem Sorted.insertNew {k : Text} {v : β} {fields : List (Text × β)} (h : Sorted fields) :
    Sorted (Json.insertNew k v fields) := by
  induction fields with
  | nil => exact List.pairwise_singleton _ _
  | cons f fields ih =>
    obtain ⟨hhead, htail⟩ := List.pairwise_cons.mp h
    rw [Json.insertNew]
    split
    · exact h
    · rename_i hne
      split
      · rename_i hlt
        refine List.pairwise_cons.mpr ⟨fun f' hf' => ?_, h⟩
        obtain rfl | hmem := List.mem_cons.mp hf'
        · exact hlt
        · exact List.lt_trans hlt (hhead f' hmem)
      · rename_i hnot
        refine List.pairwise_cons.mpr ⟨fun f' hf' => ?_, ih htail⟩
        obtain rfl | hmem := mem_insertNew hf'
        · obtain hlt | heq := List.le_iff_lt_or_eq.mp (List.not_lt.mp hnot)
          · exact hlt
          · exact absurd heq.symm hne
        · exact hhead f' hmem

/-- A name that all members come after is not there. -/
theorem member_eq_none {k : Text} {fields : List (Text × β)} (h : ∀ f ∈ fields, k ≠ f.1) :
    member k fields = none := by
  induction fields with
  | nil => rfl
  | cons f fields ih =>
    rw [member, ih fun f' hf' => h f' (List.mem_cons_of_mem f hf'),
      if_neg (h f List.mem_cons_self)]
    rfl

/-- The first member of a sorted table is the only one of its name. -/
theorem Sorted.member_head {k : Text} {v : β} {fields : List (Text × β)}
    (h : Sorted ((k, v) :: fields)) : member k fields = none := by
  refine member_eq_none fun f hf heq => ?_
  have hlt : k < f.1 := (List.pairwise_cons.mp h).1 f hf
  exact absurd (heq ▸ hlt) (List.lt_irrefl _)

/-- **Inserting** adds a member if there was none. -/
theorem member_insertNew {k x : Text} {v : β} {fields : List (Text × β)} (h : Sorted fields) :
    member x (insertNew k v fields) =
      (member x fields).or (if x = k then some v else none) := by
  induction fields with
  | nil => rfl
  | cons f fields ih =>
    obtain ⟨k', v'⟩ := f
    rw [insertNew]
    split
    · rename_i heq
      by_cases hx : x = k
      · rw [member, if_pos (hx.trans heq), hx, heq, h.member_head]
        rfl
      · rw [if_neg hx, Option.or_none]
    · split
      · rw [member]
      · rename_i hne _
        rw [member, ih (List.pairwise_cons.mp h).2, member, Option.or_assoc, Option.or_assoc]
        by_cases hx : x = k
        · rw [if_pos hx, if_neg fun hx' => hne (hx.symm.trans hx')]
          rfl
        · rw [if_neg hx, Option.or_none]
          rfl

/-- **A sorted table is known by its members.** -/
theorem Sorted.ext {fields fields' : List (Text × β)} (h : Sorted fields) (h' : Sorted fields')
    (hmember : ∀ k, member k fields = member k fields') : fields = fields' := by
  -- what the first member of one table is, when all names agree
  have hhead : ∀ {k k' : Text} {v v' : β} {l l' : List (Text × β)},
      Sorted ((k, v) :: l) → Sorted ((k', v') :: l') →
      (∀ x, member x ((k, v) :: l) = member x ((k', v') :: l')) → ¬ k < k' := by
    intro k k' v v' l l' hl hl' hall hlt
    have hk := hall k
    rw [member, hl.member_head, if_pos rfl] at hk
    have hnone : member k ((k', v') :: l') = none := by
      refine member_eq_none fun f hf heq => ?_
      obtain rfl | hmem := List.mem_cons.mp hf
      · exact absurd (heq ▸ hlt) (List.lt_irrefl _)
      · have hlt' := List.lt_trans hlt ((List.pairwise_cons.mp hl').1 f hmem)
        exact absurd (heq ▸ hlt') (List.lt_irrefl _)
    rw [hnone] at hk
    cases hk
  induction fields generalizing fields' with
  | nil =>
    cases fields' with
    | nil => rfl
    | cons f' fields' =>
      have hk := hmember f'.1
      rw [member, member, h'.member_head, if_pos rfl] at hk
      cases hk
  | cons f fields ih =>
    cases fields' with
    | nil =>
      have hk := hmember f.1
      rw [member, member, h.member_head, if_pos rfl] at hk
      cases hk
    | cons f' fields' =>
      obtain ⟨k, v⟩ := f
      obtain ⟨k', v'⟩ := f'
      have hkey : k = k' := by
        obtain hlt | heq := List.le_iff_lt_or_eq.mp
          (List.not_lt.mp (hhead h' h fun x => (hmember x).symm))
        · exact absurd hlt (hhead h h' hmember)
        · exact heq
      subst hkey
      have hv := hmember k
      rw [member, member, h.member_head, h'.member_head, if_pos rfl, if_pos rfl] at hv
      cases Option.some.inj hv
      refine congrArg _ (ih (List.pairwise_cons.mp h).2 (List.pairwise_cons.mp h').2 fun x => ?_)
      have hx := hmember x
      rw [member, member] at hx
      by_cases heq : x = k
      · rw [heq, h.member_head, h'.member_head]
      · rwa [if_neg heq, Option.or_none, Option.or_none] at hx

end Fields

mutual

/-- A document as a table of its members keeps it: the last member of each name,
sorted by name. -/
def canonical : Json → Json
  | arr items => arr (canonicalItems items)
  | obj fields => obj (canonicalFields fields)
  | null => null
  | bool b => bool b
  | num n => num n
  | str s => str s

/-- Items, each in its canonical form and in their own order. -/
def canonicalItems : List Json → List Json
  | [] => []
  | j :: items => j.canonical :: canonicalItems items

/-- Fields in the order of their keys, each with its value in canonical form. -/
def canonicalFields : List (Text × Json) → List (Text × Json)
  | [] => []
  | (k, j) :: fields => insertNew k j.canonical (canonicalFields fields)

end

theorem canonicalItems_eq (items : List Json) : canonicalItems items = items.map canonical := by
  induction items with
  | nil => rfl
  | cons j items ih => rw [canonicalItems, ih, List.map_cons]

theorem sorted_canonicalFields (fields : List (Text × Json)) :
    Sorted (canonicalFields fields) := by
  induction fields with
  | nil => exact List.Pairwise.nil
  | cons f fields ih => exact ih.insertNew

theorem member_canonicalFields (k : Text) (fields : List (Text × Json)) :
    member k (canonicalFields fields) = (member k fields).map canonical := by
  induction fields with
  | nil => rfl
  | cons f fields ih =>
    obtain ⟨k', j⟩ := f
    rw [canonicalFields, member_insertNew (sorted_canonicalFields fields), ih, member,
      Option.map_or]
    split <;> rfl

/-- **Objects are the same** exactly if all their members are. -/
theorem canonical_obj_inj {fields fields' : List (Text × Json)} :
    (obj fields).canonical = (obj fields').canonical ↔
      ∀ k, (member k fields).map canonical = (member k fields').map canonical := by
  rw [canonical, canonical, obj.injEq]
  constructor
  · intro h k
    rw [← member_canonicalFields, h, member_canonicalFields]
  · intro h
    refine (sorted_canonicalFields _).ext (sorted_canonicalFields _) fun k => ?_
    rw [member_canonicalFields, member_canonicalFields]
    exact h k

/-- What of an array's items is canonical. -/
theorem canonical_arr_inj {items items' : List Json} :
    (arr items).canonical = (arr items').canonical ↔ items.map canonical = items'.map canonical := by
  rw [canonical, canonical, arr.injEq, canonicalItems_eq, canonicalItems_eq]

mutual

/-- A canonical form is canonical. -/
theorem canonical_canonical : ∀ j : Json, j.canonical.canonical = j.canonical
  | null => rfl
  | bool _ => rfl
  | num _ => rfl
  | str _ => rfl
  | arr items => by
    rw [canonical, canonical, canonicalItems_canonicalItems items]
  | obj fields => by
    refine canonical_obj_inj.mpr fun k => ?_
    rw [member_canonicalFields, Option.map_map]
    cases h : member k fields with
    | none => rfl
    | some j => exact congrArg some (canonical_member fields k j h)

theorem canonicalItems_canonicalItems : ∀ items : List Json,
    canonicalItems (canonicalItems items) = canonicalItems items
  | [] => rfl
  | j :: items => by
    rw [canonicalItems, canonicalItems, canonical_canonical j,
      canonicalItems_canonicalItems items]

theorem canonical_member : ∀ (fields : List (Text × Json)) (k : Text) (j : Json),
    member k fields = some j → j.canonical.canonical = j.canonical
  | [], _, _, h => nomatch h
  | (k', v) :: fields, k, j, h => by
    rw [member, Option.or_eq_some_iff] at h
    obtain htail | ⟨-, hhead⟩ := h
    · exact canonical_member fields k j htail
    · split at hhead
      · exact Option.some.inj hhead ▸ canonical_canonical v
      · cases hhead

end

end Json
