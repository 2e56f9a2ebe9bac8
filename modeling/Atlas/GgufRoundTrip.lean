import Atlas.GgufHeader

/-!
# Reading a GGUF header back

The reader finds what a header says as long as it stays in step with the pairs: at the end
of each value it has to stand where the next key begins. It loses step behind a string
longer than 64 KiB, of which it takes the beginning only, and it gives up at an array of
arrays, which it has no way to skip. `GgufHeader.readsBack_iff` says for the headers on
which it stays in step that it reads them back exactly if it does not have to give up, and
if the file type is a number it understands.
-/

namespace Atlas

open Text ByteReader Program

/-! ## Staying in step -/

/-- A string that is read to its end, being no longer than the 64 KiB the reader takes of one. -/
def Short (s : Text) : Prop := (utf8 s).length ≤ ggufMaxStr

namespace GgufValue

/-- An array of arrays, which the reader refuses to skip. -/
def Nested : GgufValue → Prop
  | array (.arrays _) => True
  | _ => False

/-- The reader stands behind the value when it is done with it. -/
def InStep : GgufValue → Prop
  | string s => Short s
  | array (.strings elements) => ∀ s ∈ elements, Short s
  | array (.arrays elements) => elements = []
  | _ => True

end GgufValue

/-- The keys whose string is taken, given whether a source was found already. -/
def Shown (found : Bool) (key : Text) : Prop :=
  (ggufField key).isSome = true ∨ (key ∈ sourceKeys ∧ found = false)

/-- The keys at which the reader goes on where it cannot read the value. -/
def Lenient (found : Bool) (key : Text) : Prop := Shown found key ∨ key = fileTypeKey

/-- Whether a source is found once a pair is read, or was before it. -/
def foundAfter (found : Bool) (p : GgufPair) : Bool :=
  found || (decide (p.1 ∈ sourceKeys) && p.2.text.isSome)

/-- The last value: the reader need not stand behind it, but has to get through it. -/
def LastInStep (found : Bool) (key : Text) : GgufValue → Prop
  | .string s => Shown found key → Short s
  | .array (.strings elements) => Lenient found key ∨ ∀ s ∈ elements.dropLast, Short s
  | _ => True

/-- **The reader stays in step**: keys are short; the reader stands behind each value but
the last, or gives up at it; and it gets through the last one. -/
def StaysInStep : Bool → List GgufPair → Prop
  | _, [] => True
  | found, (key, v) :: rest =>
    Short key ∧
      (if rest = [] then LastInStep found key v
      else v.InStep ∨ (v.Nested ∧ ¬ Lenient found key)) ∧
      StaysInStep (foundAfter found (key, v)) rest

/-- No array of arrays where the reader would give up: it goes on after one only under a key
whose value it shows, or under that of the file type. -/
def NoneNested : Bool → List GgufPair → Prop
  | _, [] => True
  | found, (key, v) :: rest =>
    (v.Nested → Lenient found key) ∧ NoneNested (foundAfter found (key, v)) rest

/-- **A file type the reader understands**: as an integer of 8 or 16 bits it would have no
label, and one of 64 bits has no label in its low half unless it is that half. -/
def FileTypeUnderstood : GgufValue → Prop
  | .scalar s =>
    match s.type with
    | .uint8 | .int8 | .uint16 | .int16 => quantFromFileType s.bits.toNat = none
    | .uint64 | .int64 =>
      quantFromFileType (s.bits.toNat % 2 ^ 32) ≠ none → s.bits.toNat < 2 ^ 32
    | _ => True
  | _ => True

/-- A reader returns a value, and stands at `rest` if it keeps in step. -/
def Leaves {α : Type} (inStep : Prop) (x : Reader α) (s : Bytes) (a : α) (rest : Bytes) : Prop :=
  ∃ left, x s = (.ok a, left) ∧ (inStep → left = rest)

namespace Leaves

variable {α β : Type} {p q : Prop} {x : Reader α} {s s' rest : Bytes} {a : α} {b : β}

theorem of_eq (h : x s = (.ok a, rest)) : Leaves p x s a rest := ⟨rest, h, fun _ => rfl⟩

theorem weaken (h : Leaves p x s a rest) (hqp : q → p) : Leaves q x s a rest := by
  obtain ⟨left, hx, hleft⟩ := h
  exact ⟨left, hx, fun hq => hleft (hqp hq)⟩

/-- What is read after something that was read to its end. -/
theorem bind {f : α → Reader β} (hx : x s = (.ok a, s')) (hf : Leaves p (f a) s' b rest) :
    Leaves p (x >>= f) s b rest := by
  obtain ⟨left, hleft, hrest⟩ := hf
  exact ⟨left, (bind_of_ok hx).trans hleft, hrest⟩

theorem map {f : α → β} (h : Leaves p x s a rest) :
    Leaves p (x >>= fun a => (pure (f a) : Reader β)) s (f a) rest := by
  obtain ⟨left, hx, hrest⟩ := h
  exact ⟨left, bind_of_ok hx, hrest⟩

theorem result (h : Leaves p x s a rest) :
    Leaves p (Program.result x) s (.ok a) rest := by
  obtain ⟨left, hx, hrest⟩ := h
  refine ⟨left, ?_, hrest⟩
  unfold Program.result
  rw [hx]

end Leaves

/-! ## Readers do not crash -/

/-- A reader ends with a value or a failure, and never by slicing past the end of what it
was given. -/
def CrashFree {α : Type} (x : Reader α) : Prop := ∀ s, (x s).1 ≠ .crash

namespace CrashFree

variable {α β : Type}

theorem pure (a : α) : CrashFree (pure a : Reader α) := fun _ h => nomatch h

theorem throw : CrashFree (Program.throw () : Reader α) := fun _ h => nomatch h

theorem bind {x : Reader α} {f : α → Reader β} (hx : CrashFree x) (hf : ∀ a, CrashFree (f a)) :
    CrashFree (x >>= f) := by
  intro s
  rw [bind_apply]
  rcases hxs : x s with ⟨a | e | _, s'⟩
  · exact hf a s'
  · exact fun h => nomatch h
  · exact absurd (congrArg Prod.fst hxs) (hx s)

theorem readExact (n : ℕ) : CrashFree (readExact n) := by
  intro s
  unfold ByteReader.readExact
  split
  · exact fun h => nomatch h
  · exact fun h => nomatch h

theorem readLe (width : ℕ) : CrashFree (readLe width) :=
  bind (readExact width) fun bytes => pure (fromLe bytes)

theorem skip (n : ℕ) : CrashFree (skip n) := by
  induction n using Nat.strong_induction_on with
  | _ n ih =>
    rw [ByteReader.skip]
    by_cases hn : n = 0
    · rw [if_pos hn]
      exact pure ()
    · rw [if_neg hn]
      have hlt : n - min n 8192 < n := Nat.sub_lt (Nat.pos_of_ne_zero hn)
        (lt_min (Nat.pos_of_ne_zero hn) (by decide))
      exact bind (readExact _) fun _ => ih _ hlt

theorem skipStrings (count read : ℕ) : CrashFree (skipStrings count read) := by
  induction count generalizing read with
  | zero => exact pure ()
  | succ count ih =>
    refine bind (readLe 8) fun n => bind (skip _) fun _ => ?_
    show CrashFree (if _ then _ else _)
    split
    · exact throw
    · exact ih _

theorem skipScalars (elemType count : ℕ) : CrashFree (skipScalars elemType count) := by
  unfold Atlas.skipScalars
  split
  · exact throw
  · split
    · exact throw
    · exact skip _

theorem skipGgufValue (vtype : ℕ) : CrashFree (skipGgufValue vtype) := by
  unfold Atlas.skipGgufValue
  split
  · exact bind (readLe 8) fun n => skip _
  · split
    · refine bind (readLe 4) fun elemType => bind (readLe 8) fun count => ?_
      split
      · exact skipStrings count 0
      · exact skipScalars elemType count
    · split
      · exact throw
      · exact skip _

/-- The outcome of a reader can be looked at. -/
theorem exists_result {x : Reader α} (h : CrashFree x) (s : Bytes) :
    ∃ r left, result x s = (.ok r, left) ∧ left = (x s).2 := by
  unfold result
  rcases hxs : x s with ⟨a | e | _, s'⟩
  · exact ⟨.ok a, s', rfl, rfl⟩
  · exact ⟨.error e, s', rfl, rfl⟩
  · exact absurd (congrArg Prod.fst hxs) (h s)

end CrashFree

/-! ## Strings -/

theorem length_lt_of_short {s : Text} (h : Short s) : (utf8 s).length < 256 ^ 8 :=
  Nat.lt_of_le_of_lt h (by decide)

/-- **A short string is read.** -/
theorem readGgufString_write {s : Text} (h : Short s) (rest : Bytes) :
    readGgufString (writeString s ++ rest) = (.ok s, rest) := by
  unfold readGgufString writeString
  rw [List.append_assoc, bind_of_ok (readU64_toLe (length_lt_of_short h) _)]
  have hlen : (utf8 s).length = min (utf8 s).length ggufMaxStr := (Nat.min_eq_left h).symm
  rw [bind_of_ok (readExact_append hlen rest), fromUtf8Lossy_utf8]
  rfl

/-- A string is skipped as far as it is read. -/
theorem skipString_write {s : Text} (h : (utf8 s).length < 256 ^ 8) (rest : Bytes) :
    Leaves (Short s) (do
      let n ← readU64
      skip (min n ggufMaxStr)) (writeString s ++ rest) () rest := by
  unfold writeString
  rw [List.append_assoc]
  refine Leaves.bind (readU64_toLe h _) ⟨_, skip_apply ?_, fun hshort => ?_⟩
  · rw [List.length_append]
    exact (Nat.min_le_left _ _).trans (Nat.le_add_right _ _)
  · rw [Nat.min_eq_left hshort, List.drop_left]

/-- **The strings of an array are skipped**, and the reader stands behind them if they are
short; a last one that is long does not matter otherwise. -/
theorem skipStrings_write {elements : List Text} {read : ℕ}
    (hfits : read + (elements.map fun s => (utf8 s).length + 8).sum ≤ ggufMaxArrayBytes)
    (hshort : ∀ s ∈ elements.dropLast, Short s) (rest : Bytes) :
    Leaves (∀ s ∈ elements, Short s) (skipStrings elements.length read)
      (elements.flatMap writeString ++ rest) () rest := by
  induction elements generalizing read with
  | nil => exact Leaves.of_eq rfl
  | cons s elements ih =>
    rw [List.map_cons, List.sum_cons] at hfits
    have hmax : ggufMaxArrayBytes < 2 ^ 64 - 1 := by decide
    have hlen : (utf8 s).length < 256 ^ 8 := by
      have : (2 : ℕ) ^ 64 = 256 ^ 8 := by decide
      omega
    have hmin := Nat.min_le_left (utf8 s).length ggufMaxStr
    have hsum : saturatingAdd (saturatingAdd read (min (utf8 s).length ggufMaxStr)) 8
        = read + min (utf8 s).length ggufMaxStr + 8 := by
      unfold saturatingAdd
      omega
    rw [List.flatMap_cons, List.append_assoc]
    unfold writeString
    rw [List.append_assoc]
    rw [List.length_cons, skipStrings]
    refine Leaves.bind (readU64_toLe hlen _) (Leaves.bind (skip_apply ?_) ?_)
    · rw [List.length_append]
      exact hmin.trans (Nat.le_add_right _ _)
    · rw [hsum, if_neg (by omega)]
      by_cases hnil : elements = []
      · rw [hnil]
        refine ⟨_, rfl, fun hall => ?_⟩
        rw [Nat.min_eq_left (hall s List.mem_cons_self), List.drop_left]
        rfl
      · rw [List.dropLast_cons_of_ne_nil hnil] at hshort
        have hs : Short s := hshort s List.mem_cons_self
        rw [Nat.min_eq_left hs, List.drop_left]
        refine (ih (by omega) fun t ht => hshort t (List.mem_cons_of_mem s ht)).weaken ?_
        exact fun hall t ht => hall t (List.mem_cons_of_mem s ht)

/-! ## Values -/

/-- A value the reader gets through when it skips it: no string but the last of an array is
longer than what a skip goes past, and there are no arrays of arrays. -/
def GgufValue.Passable : GgufValue → Prop
  | array (.strings elements) => ∀ s ∈ elements.dropLast, Short s
  | array (.arrays _) => False
  | _ => True

theorem GgufValue.passable_of_inStep {v : GgufValue} (h : v.InStep) (hnested : ¬ v.Nested) :
    v.Passable := by
  cases v with
  | scalar s => trivial
  | string s => trivial
  | array a =>
    cases a with
    | scalars type elements => trivial
    | strings elements => exact fun s hs => h s ((List.dropLast_subset elements) hs)
    | arrays elements => exact absurd trivial hnested

theorem length_le_sum (elements : List Text) :
    elements.length ≤ (elements.map fun s => (utf8 s).length + 8).sum := by
  induction elements with
  | nil => exact Nat.zero_le _
  | cons s elements ih =>
    rw [List.length_cons, List.map_cons, List.sum_cons, Nat.add_comm]
    exact Nat.add_le_add (Nat.le_add_left_of_le (by decide)) ih

theorem length_flatMap_toLe (width : ℕ) {n : ℕ} (elements : List (BitVec n)) :
    (elements.flatMap fun bits => toLe width bits.toNat).length = elements.length * width := by
  induction elements with
  | nil => exact (Nat.zero_mul width).symm
  | cons bits elements ih =>
    rw [List.flatMap_cons, List.length_append, ih, length_toLe, List.length_cons, Nat.succ_mul,
      Nat.add_comm]

/-- An array is skipped behind its type and count. -/
theorem skipGgufValue_array {elemType count : ℕ} (htype : elemType < 256 ^ 4)
    (hcount : count < 256 ^ 8) (s : Bytes) :
    skipGgufValue 9 (toLe 4 elemType ++ (toLe 8 count ++ s))
      = (if elemType = 8 then skipStrings count 0 else skipScalars elemType count) s := by
  unfold skipGgufValue
  rw [if_neg (by decide), if_pos rfl, bind_of_ok (readU32_toLe htype _),
    bind_of_ok (readU64_toLe hcount _)]

/-- **A value is skipped**, and the reader stands behind it if it is in step. -/
theorem skipGgufValue_write {v : GgufValue} (hfits : v.Fits) (hpass : v.Passable)
    (rest : Bytes) : Leaves v.InStep (skipGgufValue v.tag) (v.write ++ rest) () rest := by
  have hcount : ∀ {n : ℕ}, n ≤ ggufMaxArrayBytes → n < 256 ^ 8 := fun h =>
    Nat.lt_of_le_of_lt h (by decide)
  -- by the shape of the value; only strings, alone or in an array, may leave the reader short of
  -- their end
  cases v with
  | scalar s =>
    refine Leaves.of_eq ?_
    obtain ⟨h8, h9, -⟩ := s.type.tag_ne
    show skipGgufValue s.type.tag _ = _
    unfold skipGgufValue
    rw [if_neg h8, if_neg h9, s.type.scalarWidth_tag]
    exact skip_append (length_toLe _ _) rest
  | string s => exact skipString_write hfits rest
  | array a =>
    cases a with
    | scalars type elements =>
      have hle : elements.length * type.width ≤ ggufMaxArrayBytes := hfits
      have hlen : elements.length ≤ ggufMaxArrayBytes :=
        (Nat.le_mul_of_pos_right _ type.width_pos).trans hle
      obtain ⟨h8, -, htag⟩ := type.tag_ne
      refine Leaves.of_eq ?_
      show skipGgufValue 9 ((toLe 4 type.tag ++ (toLe 8 elements.length ++ _)) ++ rest) = _
      rw [List.append_assoc, List.append_assoc, skipGgufValue_array htag (hcount hlen),
        if_neg h8]
      unfold skipScalars
      rw [type.scalarWidth_tag]
      show (if elements.length * type.width > ggufMaxArrayBytes then throw ()
        else skip (elements.length * type.width) : Reader Unit) _ = _
      rw [if_neg (Nat.not_lt.mpr hle)]
      exact skip_append (length_flatMap_toLe _ elements) rest
    | strings elements =>
      have hle : (elements.map fun s => (utf8 s).length + 8).sum ≤ ggufMaxArrayBytes := hfits
      have hlen : elements.length ≤ ggufMaxArrayBytes := (length_le_sum elements).trans hle
      show Leaves _ (skipGgufValue 9)
        ((toLe 4 8 ++ (toLe 8 elements.length ++ elements.flatMap writeString)) ++ rest) () rest
      unfold Leaves
      rw [List.append_assoc, List.append_assoc, skipGgufValue_array (by decide) (hcount hlen),
        if_pos rfl]
      exact skipStrings_write (by rwa [Nat.zero_add]) hpass rest
    | arrays elements => exact hpass.elim

/-- The elements of an array of arrays take at least a byte each. -/
theorem length_le_writeAll (elements : List GgufArray) :
    elements.length ≤ (GgufArray.writeAll elements).length := by
  induction elements with
  | nil => exact Nat.zero_le _
  | cons a elements ih =>
    have hpos : 1 ≤ a.write.length := by
      cases a with
      | scalars type elements =>
        rw [GgufArray.write, List.length_append, length_toLe]
        exact Nat.le_add_right_of_le (by decide)
      | strings elements =>
        rw [GgufArray.write, List.length_append, length_toLe]
        exact Nat.le_add_right_of_le (by decide)
      | arrays elements =>
        rw [GgufArray.write, List.length_append, length_toLe]
        exact Nat.le_add_right_of_le (by decide)
    rw [GgufArray.writeAll, List.length_append, List.length_cons, Nat.add_comm]
    exact Nat.add_le_add hpos ih

/-- **At an array of arrays the reader gives up**, in front of the elements. -/
theorem skipGgufValue_nested {elements : List GgufArray}
    (hfits : (GgufArray.arrays elements).Fits) (rest : Bytes) :
    skipGgufValue 9 ((GgufArray.arrays elements).write ++ rest)
      = (.err (), GgufArray.writeAll elements ++ rest) := by
  have hlen : elements.length < 256 ^ 8 :=
    Nat.lt_of_le_of_lt ((length_le_writeAll elements).trans hfits) (by decide)
  rw [GgufArray.write, List.append_assoc, List.append_assoc,
    skipGgufValue_array (by decide) hlen, if_neg (by decide)]
  rfl

/-- A value that is skipped whether or not it can be: the reader stands behind it if it is
in step. -/
theorem result_skipGgufValue {v : GgufValue} (hfits : v.Fits) (rest : Bytes) :
    ∃ r, Leaves v.InStep (result (skipGgufValue v.tag)) (v.write ++ rest) r rest := by
  by_cases hpass : v.Passable
  · exact ⟨_, (skipGgufValue_write hfits hpass rest).result⟩
  · obtain ⟨r, left, hr, -⟩ := (CrashFree.skipGgufValue v.tag).exists_result (v.write ++ rest)
    refine ⟨r, left, hr, fun hstep => ?_⟩
    by_cases hnested : v.Nested
    · cases v with
      | scalar s => exact hnested.elim
      | string s => exact hnested.elim
      | array a =>
        cases a with
        | scalars type elements => exact hnested.elim
        | strings elements => exact hnested.elim
        | arrays elements =>
          have helements : elements = [] := hstep
          subst helements
          have hskip : result (skipGgufValue 9) ((GgufArray.arrays []).write ++ rest)
              = (.ok (.error ()), rest) := by
            unfold result
            rw [skipGgufValue_nested hfits]
            rfl
          exact (congrArg Prod.snd (hr.symm.trans hskip))
    · exact absurd (GgufValue.passable_of_inStep hstep hnested) hpass

/-- **A value is taken as the string it is.** -/
theorem readGgufValueString_write {v : GgufValue} (hfits : v.Fits)
    (hshort : ∀ s, v.text = some s → Short s ∧ s.trim ≠ []) (rest : Bytes) :
    Leaves v.InStep (readGgufValueString v.tag) (v.write ++ rest) v.text rest := by
  have hother : v.tag ≠ 8 → v.text = none →
      Leaves v.InStep (readGgufValueString v.tag) (v.write ++ rest) v.text rest := by
    intro htag htext
    obtain ⟨r, hr⟩ := result_skipGgufValue hfits rest
    unfold readGgufValueString
    rw [if_neg htag, htext]
    exact hr.map
  cases v with
  | scalar s => exact hother s.type.tag_ne.1 rfl
  | string s =>
    obtain ⟨hs, hblank⟩ := hshort s rfl
    have hread : result readGgufString (writeString s ++ rest) = (.ok (.ok s), rest) := by
      unfold result
      rw [readGgufString_write hs]
    refine Leaves.of_eq ?_
    show (do
      let s ← result readGgufString
      pure (s.toOption.filter fun s => s.trim ≠ []) : Reader (Option Text)) _ = _
    rw [GgufValue.write, bind_of_ok hread]
    have hkept : ((some s).filter fun s : Text => decide (s.trim ≠ [])) = some s :=
      Option.filter_some_pos (decide_eq_true hblank)
    exact congrArg (fun o => ((.ok o, rest) : Exit Unit (Option Text) × Bytes)) hkept
  | array a => exact hother (show 9 ≠ 8 by decide) rfl

/-- The number the reader takes a file type for: 32-bit integers as they are, 64-bit ones
cut to their lower 32 bits, and nothing for any other value. -/
def GgufValue.word : GgufValue → Option ℕ
  | scalar s =>
    match s.type with
    | .uint32 | .int32 => some s.bits.toNat
    | .uint64 | .int64 => some (s.bits.toNat % 2 ^ 32)
    | _ => none
  | _ => none

/-- **A file type is taken as its 32-bit number.** -/
theorem readGgufValueU32_write {v : GgufValue} (hfits : v.Fits) (rest : Bytes) :
    Leaves v.InStep (readGgufValueU32 v.tag) (v.write ++ rest) v.word rest := by
  have hother : ∀ n, v.tag = n → n ∉ [4, 5, 10, 11] → v.word = none →
      Leaves v.InStep (readGgufValueU32 v.tag) (v.write ++ rest) v.word rest := by
    rintro n rfl htag hword
    obtain ⟨r, hr⟩ := result_skipGgufValue hfits rest
    simp only [List.mem_cons, List.not_mem_nil, or_false, not_or] at htag
    unfold readGgufValueU32
    rw [if_neg (not_or.mpr ⟨htag.1, htag.2.1⟩), if_neg (not_or.mpr htag.2.2), hword]
    exact hr.map
  have hread : ∀ (width : ℕ) {n : ℕ}, n < 256 ^ width →
      result (readLe width) (toLe width n ++ rest) = (.ok (.ok n), rest) := by
    intro width n hn
    unfold result
    rw [readLe_toLe hn]
  cases v with
  | scalar s =>
    obtain ⟨type, bits⟩ := s
    have hlt : bits.toNat < 256 ^ type.width := by
      have hbits := bits.isLt
      rwa [Nat.pow_mul] at hbits
    cases type with
    | uint32 => exact Leaves.of_eq (bind_of_ok (hread 4 hlt))
    | int32 => exact Leaves.of_eq (bind_of_ok (hread 4 hlt))
    | uint64 => exact Leaves.of_eq (bind_of_ok (hread 8 hlt))
    | int64 => exact Leaves.of_eq (bind_of_ok (hread 8 hlt))
    | uint8 => exact hother 0 rfl (by decide) rfl
    | int8 => exact hother 1 rfl (by decide) rfl
    | uint16 => exact hother 2 rfl (by decide) rfl
    | int16 => exact hother 3 rfl (by decide) rfl
    | float32 => exact hother 6 rfl (by decide) rfl
    | bool => exact hother 7 rfl (by decide) rfl
    | float64 => exact hother 12 rfl (by decide) rfl
  | string s => exact hother 8 rfl (by decide) rfl
  | array a => exact hother 9 rfl (by decide) rfl

/-! ## Keys -/

theorem key_of_ggufField {key : Text} {f : GgufField} (h : ggufField key = some f) :
    f.key = key := by
  have hfound := List.find?_some
    (show GgufField.all.find? (fun f => decide (f.key = key)) = some f from h)
  exact of_decide_eq_true hfound

theorem ggufField_key (f : GgufField) : ggufField f.key = some f := by
  cases f <;> decide

/-- The keys of the fields, of the sources and of the file type are different. -/
theorem ggufField_of_mem_sourceKeys : ∀ key ∈ sourceKeys, ggufField key = none := by
  decide

theorem fileTypeKey_notMem_sourceKeys : fileTypeKey ∉ sourceKeys := by
  decide

theorem ggufField_fileTypeKey : ggufField fileTypeKey = none := by
  decide

/-! ## Pairs -/

/-- What is known after a pair: its string where the key is a field, the first source, the
file type, or nothing new. -/
def GgufScan.after (scan : GgufScan) (p : GgufPair) : GgufScan :=
  match ggufField p.1 with
  | some field => { scan with fileMeta := scan.fileMeta.set p.2.text field }
  | none =>
    if p.1 ∈ sourceKeys then
      if scan.fileMeta.sourceUrl = none then
        { scan with fileMeta := { scan.fileMeta with sourceUrl := p.2.text } }
      else scan
    else if p.1 = fileTypeKey then { scan with fileType := p.2.word }
    else scan

namespace GgufScan

variable {scan : GgufScan} {p : GgufPair}

theorem after_field {f : GgufField} (h : ggufField p.1 = some f) :
    scan.after p = { scan with fileMeta := scan.fileMeta.set p.2.text f } := by
  unfold after
  rw [h]

theorem after_source (h : p.1 ∈ sourceKeys) (hnone : scan.fileMeta.sourceUrl = none) :
    scan.after p = { scan with fileMeta := { scan.fileMeta with sourceUrl := p.2.text } } := by
  unfold after
  rw [ggufField_of_mem_sourceKeys p.1 h]
  exact (if_pos h).trans (if_pos hnone)

theorem after_later_source (h : p.1 ∈ sourceKeys) (hsome : ¬ scan.fileMeta.sourceUrl = none) :
    scan.after p = scan := by
  unfold after
  rw [ggufField_of_mem_sourceKeys p.1 h]
  exact (if_pos h).trans (if_neg hsome)

theorem after_fileType (h : p.1 = fileTypeKey) :
    scan.after p = { scan with fileType := p.2.word } := by
  unfold after
  rw [h, ggufField_fileTypeKey]
  exact (if_neg fileTypeKey_notMem_sourceKeys).trans (if_pos rfl)

theorem after_other (hfield : ggufField p.1 = none) (hsource : p.1 ∉ sourceKeys)
    (htype : p.1 ≠ fileTypeKey) : scan.after p = scan := by
  unfold after
  rw [hfield]
  exact (if_neg hsource).trans (if_neg htype)

/-- The five kinds of keys. -/
theorem key_cases (key : Text) : (∃ f, ggufField key = some f) ∨ key ∈ sourceKeys ∨
    key = fileTypeKey ∨ (ggufField key = none ∧ key ∉ sourceKeys ∧ key ≠ fileTypeKey) := by
  cases hfield : ggufField key with
  | some f => exact Or.inl ⟨f, rfl⟩
  | none =>
    by_cases hsource : key ∈ sourceKeys
    · exact Or.inr (Or.inl hsource)
    · by_cases htype : key = fileTypeKey
      · exact Or.inr (Or.inr (Or.inl htype))
      · exact Or.inr (Or.inr (Or.inr ⟨rfl, hsource, htype⟩))

theorem notMem_sourceKeys_of_field {key : Text} {f : GgufField} (h : ggufField key = some f) :
    key ∉ sourceKeys := fun hmem => by
  rw [ggufField_of_mem_sourceKeys key hmem] at h
  cases h

/-- The source of the first pair that has one stays. -/
theorem sourceUrl_after : (scan.after p).fileMeta.sourceUrl =
    scan.fileMeta.sourceUrl.or (if p.1 ∈ sourceKeys then p.2.text else none) := by
  obtain ⟨f, hfield⟩ | hsource | htype | ⟨hfield, hsource, htype⟩ := key_cases p.1
  · rw [after_field hfield, if_neg (notMem_sourceKeys_of_field hfield), Option.or_none]
    exact FileMeta.sourceUrl_set _ _ _
  · rw [if_pos hsource]
    by_cases hnone : scan.fileMeta.sourceUrl = none
    · rw [after_source hsource hnone, hnone]
      rfl
    · rw [after_later_source hsource hnone]
      obtain ⟨url, hurl⟩ := Option.ne_none_iff_exists'.mp hnone
      rw [hurl]
      rfl
  · rw [after_fileType htype, htype, if_neg fileTypeKey_notMem_sourceKeys, Option.or_none]
  · rw [after_other hfield hsource htype, if_neg hsource, Option.or_none]

theorem foundAfter_eq :
    foundAfter scan.fileMeta.sourceUrl.isSome p = (scan.after p).fileMeta.sourceUrl.isSome := by
  rw [sourceUrl_after, Option.isSome_or]
  unfold foundAfter
  by_cases hsource : p.1 ∈ sourceKeys
  · rw [if_pos hsource, decide_eq_true hsource, Bool.true_and]
  · rw [if_neg hsource, decide_eq_false hsource, Bool.false_and]
    rfl

theorem get_after (f : GgufField) : (scan.after p).fileMeta.get f =
    if p.1 = f.key then p.2.text else scan.fileMeta.get f := by
  obtain ⟨g, hfield⟩ | hsource | htype | ⟨hfield, hsource, htype⟩ := key_cases p.1
  · rw [after_field hfield]
    show (scan.fileMeta.set p.2.text g).get f = _
    rw [FileMeta.get_set]
    have hkey := key_of_ggufField hfield
    by_cases hfg : f = g
    · rw [if_pos hfg, if_pos (by rw [hfg, hkey])]
    · rw [if_neg hfg, if_neg]
      intro heq
      rw [heq, ggufField_key] at hfield
      exact hfg (Option.some.inj hfield)
  · have hne : ¬ p.1 = f.key := fun heq => by
      have hnone := ggufField_of_mem_sourceKeys p.1 hsource
      rw [heq, ggufField_key] at hnone
      cases hnone
    rw [if_neg hne]
    by_cases hnone : scan.fileMeta.sourceUrl = none
    · rw [after_source hsource hnone]
      cases f <;> rfl
    · rw [after_later_source hsource hnone]
  · have hne : ¬ p.1 = f.key := fun heq => by
      have hnone := ggufField_fileTypeKey
      rw [← htype, heq, ggufField_key] at hnone
      cases hnone
    rw [after_fileType htype, if_neg hne]
  · have hne : ¬ p.1 = f.key := fun heq => by
      rw [heq, ggufField_key] at hfield
      cases hfield
    rw [after_other hfield hsource htype, if_neg hne]

theorem fileType_after : (scan.after p).fileType =
    if p.1 = fileTypeKey then p.2.word else scan.fileType := by
  obtain ⟨f, hfield⟩ | hsource | htype | ⟨hfield, hsource, htype⟩ := key_cases p.1
  · have hne : ¬ p.1 = fileTypeKey := fun heq => by
      rw [heq, ggufField_fileTypeKey] at hfield
      cases hfield
    rw [after_field hfield, if_neg hne]
  · have hne : ¬ p.1 = fileTypeKey := fun heq =>
      fileTypeKey_notMem_sourceKeys (heq ▸ hsource)
    rw [if_neg hne]
    by_cases hnone : scan.fileMeta.sourceUrl = none
    · rw [after_source hsource hnone]
    · rw [after_later_source hsource hnone]
  · rw [after_fileType htype, if_pos htype]
  · rw [after_other hfield hsource htype, if_neg htype]

/-- What the pairs do not say stays. -/
theorem format_after : (scan.after p).fileMeta.format = scan.fileMeta.format ∧
    (scan.after p).fileMeta.quantization = scan.fileMeta.quantization := by
  obtain ⟨f, hfield⟩ | hsource | htype | ⟨hfield, hsource, htype⟩ := key_cases p.1
  · rw [after_field hfield]
    cases f <;> exact ⟨rfl, rfl⟩
  · by_cases hnone : scan.fileMeta.sourceUrl = none
    · rw [after_source hsource hnone]
      exact ⟨rfl, rfl⟩
    · rw [after_later_source hsource hnone]
      exact ⟨rfl, rfl⟩
  · rw [after_fileType htype]
    exact ⟨rfl, rfl⟩
  · rw [after_other hfield hsource htype]
    exact ⟨rfl, rfl⟩

/-! ## What is known after all pairs -/

theorem valueOf_cons (p : GgufPair) (pairs : List GgufPair) (key : Text) :
    valueOf (p :: pairs) key = if p.1 = key then some p.2 else valueOf pairs key := by
  unfold valueOf
  rw [List.find?_cons]
  by_cases hkey : p.1 = key
  · rw [decide_eq_true hkey, if_pos hkey]
    rfl
  · rw [decide_eq_false hkey, if_neg hkey]

theorem valueOf_of_notMem {pairs : List GgufPair} {key : Text}
    (h : key ∉ pairs.map Prod.fst) : valueOf pairs key = none := by
  unfold valueOf
  rw [List.find?_eq_none.mpr]
  · rfl
  · intro p hp hkey
    exact h (List.mem_map.mpr ⟨p, hp, of_decide_eq_true hkey⟩)

/-- What each pair may set is, after all of them, what the pair of its key sets it to. -/
theorem foldl_after {α : Type} (read : GgufScan → α) {key : Text} {g : GgufValue → α}
    (hread : ∀ scan p, read (GgufScan.after scan p) = if p.1 = key then g p.2 else read scan)
    {pairs : List GgufPair} (hnodup : (pairs.map Prod.fst).Nodup) (scan : GgufScan) :
    read (pairs.foldl after scan) = ((valueOf pairs key).map g).getD (read scan) := by
  induction pairs generalizing scan with
  | nil => rfl
  | cons p pairs ih =>
    rw [List.map_cons, List.nodup_cons] at hnodup
    rw [List.foldl_cons, ih hnodup.2, hread, valueOf_cons]
    by_cases hkey : p.1 = key
    · rw [if_pos hkey, if_pos hkey, valueOf_of_notMem (hkey ▸ hnodup.1)]
      rfl
    · rw [if_neg hkey, if_neg hkey]

theorem sourceUrl_foldl (pairs : List GgufPair) (scan : GgufScan) :
    (pairs.foldl after scan).fileMeta.sourceUrl
      = scan.fileMeta.sourceUrl.or (sourceOf pairs) := by
  induction pairs generalizing scan with
  | nil => exact Option.or_none.symm
  | cons p pairs ih =>
    rw [List.foldl_cons, ih, sourceUrl_after, Option.or_assoc]
    refine congrArg (Option.or _) ?_
    unfold sourceOf
    rw [List.findSome?_cons]
    cases (if p.1 ∈ sourceKeys then p.2.text else none : Option Text) <;> rfl

theorem format_foldl (pairs : List GgufPair) (scan : GgufScan) :
    (pairs.foldl after scan).fileMeta.format = scan.fileMeta.format ∧
      (pairs.foldl after scan).fileMeta.quantization = scan.fileMeta.quantization := by
  induction pairs generalizing scan with
  | nil => exact ⟨rfl, rfl⟩
  | cons p pairs ih =>
    rw [List.foldl_cons]
    obtain ⟨hformat, hquant⟩ := ih (scan.after p)
    exact ⟨hformat.trans format_after.1, hquant.trans format_after.2⟩

end GgufScan

/-! ## Reading the pairs -/

/-- A pair the reader gets through: it is not an array of arrays where the reader gives up,
and it is skipped if it is not shown. -/
theorem GgufValue.passable_of_strict {found : Bool} {key : Text} {v : GgufValue}
    (hlast : LastInStep found key v) (hnested : v.Nested → Lenient found key)
    (hstrict : ¬ Lenient found key) : v.Passable := by
  cases v with
  | scalar s => trivial
  | string s => trivial
  | array a =>
    cases a with
    | scalars type elements => trivial
    | strings elements => exact hlast.resolve_left hstrict
    | arrays elements => exact absurd (hnested trivial) hstrict

/-- **A pair's value is read** as what is known after the pair. -/
theorem readEntry_write {scan : GgufScan} {key : Text} {v : GgufValue} (hfits : v.Fits)
    (hlast : LastInStep scan.fileMeta.sourceUrl.isSome key v)
    (hnested : v.Nested → Lenient scan.fileMeta.sourceUrl.isSome key)
    (hblank : key ∈ exposedKeys → ∀ s, v.text = some s → s.trim ≠ []) (rest : Bytes) :
    Leaves v.InStep (readEntry key v.tag scan) (v.write ++ rest) (scan.after (key, v)) rest := by
  have hshown : Shown scan.fileMeta.sourceUrl.isSome key → key ∈ exposedKeys →
      ∀ s, v.text = some s → Short s ∧ s.trim ≠ [] := by
    intro hshown hexposed s hs
    refine ⟨?_, hblank hexposed s hs⟩
    cases v with
    | scalar x => cases hs
    | string t =>
      obtain rfl := Option.some.inj hs
      exact hlast hshown
    | array a => cases hs
  unfold readEntry
  -- the key decides: a field that is shown, the first source key, the file type, or a key whose
  -- value is skipped
  obtain ⟨f, hfield⟩ | hsource | htype | ⟨hfield, hsource, htype⟩ := GgufScan.key_cases key
  · have hexposed : key ∈ exposedKeys := by
      rw [← key_of_ggufField hfield]
      refine List.mem_append_left _ (List.mem_map.mpr ⟨f, ?_, rfl⟩)
      cases f <;> decide
    rw [hfield, GgufScan.after_field hfield]
    exact (readGgufValueString_write hfits
      (hshown (Or.inl (by rw [hfield]; rfl)) hexposed) rest).map
  · rw [ggufField_of_mem_sourceKeys key hsource]
    show Leaves _ (if key ∈ sourceKeys then _ else _) _ _ _
    rw [if_pos hsource]
    -- a source address found before this pair makes the reader skip the value instead of reading it
    by_cases hnone : scan.fileMeta.sourceUrl = none
    · rw [if_pos hnone, GgufScan.after_source hsource hnone]
      exact (readGgufValueString_write hfits
        (hshown (Or.inr ⟨hsource, by rw [hnone]; rfl⟩) (List.mem_append_right _ hsource)) rest).map
    · have hstrict : ¬ Lenient scan.fileMeta.sourceUrl.isSome key := by
        rintro ((hsome | ⟨-, hfound⟩) | htype)
        · rw [ggufField_of_mem_sourceKeys key hsource] at hsome
          cases hsome
        · exact hnone (Option.isSome_eq_false_iff.mp hfound |> Option.isNone_iff_eq_none.mp)
        · exact fileTypeKey_notMem_sourceKeys (htype ▸ hsource)
      rw [if_neg hnone, GgufScan.after_later_source hsource hnone]
      exact (skipGgufValue_write hfits (GgufValue.passable_of_strict hlast hnested hstrict)
        rest).map
  · subst htype
    rw [ggufField_fileTypeKey, GgufScan.after_fileType rfl]
    show Leaves _ (if fileTypeKey ∈ sourceKeys then _ else _) _ _ _
    rw [if_neg fileTypeKey_notMem_sourceKeys, if_pos rfl]
    exact (readGgufValueU32_write hfits rest).map
  · have hstrict : ¬ Lenient scan.fileMeta.sourceUrl.isSome key := by
      rintro ((hsome | ⟨hmem, -⟩) | heq)
      · rw [hfield] at hsome
        cases hsome
      · exact hsource hmem
      · exact htype heq
    rw [hfield, GgufScan.after_other hfield hsource htype]
    show Leaves _ (if key ∈ sourceKeys then _ else _) _ _ _
    rw [if_neg hsource, if_neg htype]
    exact (skipGgufValue_write hfits (GgufValue.passable_of_strict hlast hnested hstrict)
      rest).map

/-- **At an array of arrays that is not shown the reader gives up.** -/
theorem readEntry_nested {scan : GgufScan} {key : Text} {v : GgufValue} (hfits : v.Fits)
    (hnested : v.Nested) (hstrict : ¬ Lenient scan.fileMeta.sourceUrl.isSome key) (rest : Bytes) :
    (readEntry key v.tag scan (v.write ++ rest)).1 = .err () := by
  have hskip : skipGgufValue v.tag (v.write ++ rest)
      = (.err (), (skipGgufValue v.tag (v.write ++ rest)).2) := by
    cases v with
    | scalar s => exact hnested.elim
    | string s => exact hnested.elim
    | array a =>
      cases a with
      | scalars type elements => exact hnested.elim
      | strings elements => exact hnested.elim
      | arrays elements =>
        show skipGgufValue 9 ((GgufArray.arrays elements).write ++ rest)
          = (.err (), (skipGgufValue 9 ((GgufArray.arrays elements).write ++ rest)).2)
        rw [skipGgufValue_nested hfits]
  have hgives : ((do
      skipGgufValue v.tag
      pure scan : Reader GgufScan) (v.write ++ rest)).1 = .err () := by
    rw [bind_apply, hskip]
    rfl
  unfold readEntry
  obtain ⟨f, hfield⟩ | hsource | htype | ⟨hfield, hsource, htype⟩ := GgufScan.key_cases key
  · exact absurd (Or.inl (Or.inl (by rw [hfield]; rfl))) hstrict
  · have hsome : ¬ scan.fileMeta.sourceUrl = none := fun hnone =>
      hstrict (Or.inl (Or.inr ⟨hsource, by rw [hnone]; rfl⟩))
    rw [ggufField_of_mem_sourceKeys key hsource]
    show ((if key ∈ sourceKeys then _ else _ : Reader GgufScan) _).1 = _
    rw [if_pos hsource, if_neg hsome]
    exact hgives
  · exact absurd (Or.inr htype) hstrict
  · rw [hfield]
    show ((if key ∈ sourceKeys then _ else _ : Reader GgufScan) _).1 = _
    rw [if_neg hsource, if_neg htype]
    exact hgives

theorem GgufValue.tag_lt (v : GgufValue) : v.tag < 256 ^ 4 := by
  cases v with
  | scalar s => exact s.type.tag_ne.2.2
  | string s => exact show 8 < 256 ^ 4 by decide
  | array a => exact show 9 < 256 ^ 4 by decide

/-- Reading a pair: its key, its type, and then its value. -/
theorem readEntries_cons {key : Text} (hkey : Short key) (v : GgufValue) (n : ℕ)
    (scan : GgufScan) (rest : Bytes) :
    readEntries (n + 1) scan (GgufPair.write (key, v) ++ rest)
      = (readEntry key v.tag scan >>= fun scan => readEntries n scan) (v.write ++ rest) := by
  rw [readEntries]
  unfold GgufPair.write
  rw [List.append_assoc, List.append_assoc, bind_of_ok (readGgufString_write hkey _),
    bind_of_ok (readU32_toLe v.tag_lt _)]

theorem lastInStep_of_inStep {found : Bool} {key : Text} {v : GgufValue} (h : v.InStep) :
    LastInStep found key v := by
  cases v with
  | scalar s => trivial
  | string s => exact fun _ => h
  | array a =>
    cases a with
    | scalars type elements => trivial
    | strings elements =>
      exact Or.inr fun s hs => h s ((List.dropLast_subset elements) hs)
    | arrays elements => trivial

/-- What is asked of the pairs of a header: each value fits its length fields, and a text
the reader shows is not made of blanks only. -/
def PairsFit (pairs : List GgufPair) : Prop :=
  ∀ p ∈ pairs, p.2.Fits ∧ (p.1 ∈ exposedKeys → ∀ s, p.2.text = some s → s.trim ≠ [])

/-- **The pairs are read in step**, unless the reader gives up at one. -/
theorem readEntries_write {found : Bool} {pairs : List GgufPair} {scan : GgufScan}
    (hfound : scan.fileMeta.sourceUrl.isSome = found) (hfit : PairsFit pairs)
    (hstep : StaysInStep found pairs) (rest : Bytes) :
    (NoneNested found pairs →
        (readEntries pairs.length scan (pairs.flatMap GgufPair.write ++ rest)).1
          = .ok (pairs.foldl GgufScan.after scan)) ∧
      (¬ NoneNested found pairs →
        (readEntries pairs.length scan (pairs.flatMap GgufPair.write ++ rest)).1
          = .err ()) := by
  -- on the pairs; `found` follows the scan, and the reader stays at a pair's start as long as every
  -- value before it was in step
  induction pairs generalizing found scan with
  | nil => exact ⟨fun _ => rfl, fun h => absurd trivial h⟩
  | cons p pairs ih =>
    obtain ⟨key, v⟩ := p
    obtain ⟨hkey, hvalue, hrest⟩ := hstep
    obtain ⟨hfits, hblank⟩ := hfit (key, v) List.mem_cons_self
    have hlater : PairsFit pairs := fun q hq => hfit q (List.mem_cons_of_mem _ hq)
    subst hfound
    rw [GgufScan.foundAfter_eq] at hrest
    obtain ⟨ihread, ihgive⟩ := ih rfl hlater hrest
    rw [List.flatMap_cons, List.append_assoc, List.length_cons, readEntries_cons hkey]
    -- an array inside an array is refused where values are skipped, and the rest is not read
    by_cases hnested : v.Nested ∧ ¬ Lenient scan.fileMeta.sourceUrl.isSome key
    · refine ⟨fun hnone => absurd (hnone.1 hnested.1) hnested.2, fun _ => ?_⟩
      have hgives := readEntry_nested hfits hnested.1 hnested.2
        (pairs.flatMap GgufPair.write ++ rest)
      rw [bind_apply]
      rcases hread : readEntry key v.tag scan
        (v.write ++ (pairs.flatMap GgufPair.write ++ rest)) with ⟨r, left⟩
      rw [hread] at hgives
      obtain rfl : r = .err () := hgives
      rfl
    · have hlenient : v.Nested → Lenient scan.fileMeta.sourceUrl.isSome key := fun hn =>
        Classical.byContradiction fun hstrict => hnested ⟨hn, hstrict⟩
      have hlast : LastInStep scan.fileMeta.sourceUrl.isSome key v := by
        split at hvalue
        · exact hvalue
        · exact lastInStep_of_inStep (hvalue.resolve_right hnested)
      obtain ⟨left, hread, hleft⟩ := readEntry_write hfits hlast hlenient hblank
        (pairs.flatMap GgufPair.write ++ rest)
      rw [bind_of_ok hread]
      -- the last value may leave the reader out of step: nothing is read after it
      by_cases hnil : pairs = []
      · subst hnil
        refine ⟨fun _ => rfl, fun hnone => absurd ⟨hlenient, trivial⟩ hnone⟩
      · rw [if_neg hnil] at hvalue
        rw [hleft (hvalue.resolve_right hnested)]
        have hiff : NoneNested scan.fileMeta.sourceUrl.isSome ((key, v) :: pairs) ↔
            NoneNested (scan.after (key, v)).fileMeta.sourceUrl.isSome pairs := by
          rw [NoneNested, GgufScan.foundAfter_eq]
          exact and_iff_right hlenient
        exact ⟨fun hnone => ihread (hiff.mp hnone), fun hnone =>
          ihgive fun h => hnone (hiff.mpr h)⟩

/-! ## The file type -/

/-- Labels are for small numbers. -/
theorem quantFromFileType_of_lt {n : ℕ} (h : 32 < n) : quantFromFileType n = none := by
  have hsmall : ∀ p ∈ quantLabels, p.1 ≤ 32 := by decide
  refine List.lookup_eq_none_iff.mpr fun p hp => ?_
  have hle := hsmall p hp
  exact bne_iff_ne.mpr (by omega)

theorem quantOf_natCast (n : ℕ) : quantOf n = quantFromFileType n := by
  unfold quantOf
  rw [if_pos (Int.natCast_nonneg n), Int.toNat_natCast]

/-- A signed number of so many bits has the label its bits have, if these are more than six. -/
theorem quantOf_toInt {n : ℕ} (hn : 6 < n) (bits : BitVec n) :
    quantOf bits.toInt = quantFromFileType bits.toNat := by
  by_cases hneg : 2 * bits.toNat < 2 ^ n
  · rw [BitVec.toInt_eq_toNat_cond, if_pos hneg, quantOf_natCast]
  · have hlarge : 32 < bits.toNat := by
      have hpow : 2 ^ 7 ≤ 2 ^ n := Nat.pow_le_pow_right (by decide) hn
      omega
    have hlt := bits.isLt
    rw [BitVec.toInt_eq_toNat_cond, if_neg hneg, quantFromFileType_of_lt hlarge]
    unfold quantOf
    refine if_neg ?_
    omega

/-- A number whose low half has a label has one itself exactly if it is that half. -/
theorem quantFromFileType_mod_iff (n : ℕ) :
    quantFromFileType (n % 2 ^ 32) = quantFromFileType n ↔
      (quantFromFileType (n % 2 ^ 32) ≠ none → n < 2 ^ 32) := by
  by_cases hlt : n < 2 ^ 32
  · exact iff_of_true (by rw [Nat.mod_eq_of_lt hlt]) fun _ => hlt
  · have hlarge : 32 < n := by omega
    rw [quantFromFileType_of_lt hlarge]
    constructor
    · exact fun hnone hsome => absurd hnone hsome
    · exact fun h => Classical.byContradiction fun hsome => hlt (h hsome)

/-- **The label of a file type is read** exactly if the file type is understood. -/
theorem fileTypeUnderstood_iff (v : GgufValue) :
    v.word.bind quantFromFileType = v.integer.bind quantOf ↔ FileTypeUnderstood v := by
  cases v with
  | scalar s =>
    obtain ⟨type, bits⟩ := s
    have hsmall : ∀ n : ℕ, none = quantFromFileType n ↔ quantFromFileType n = none :=
      fun n => eq_comm
    cases type with
    | uint8 =>
      show none = quantOf (bits.toNat : ℤ) ↔ quantFromFileType bits.toNat = none
      rw [quantOf_natCast]
      exact hsmall bits.toNat
    | uint16 =>
      show none = quantOf (bits.toNat : ℤ) ↔ quantFromFileType bits.toNat = none
      rw [quantOf_natCast]
      exact hsmall bits.toNat
    | int8 =>
      show none = quantOf bits.toInt ↔ quantFromFileType bits.toNat = none
      rw [quantOf_toInt (by decide)]
      exact hsmall bits.toNat
    | int16 =>
      show none = quantOf bits.toInt ↔ quantFromFileType bits.toNat = none
      rw [quantOf_toInt (by decide)]
      exact hsmall bits.toNat
    | uint32 => exact iff_of_true (quantOf_natCast bits.toNat).symm trivial
    | int32 => exact iff_of_true (quantOf_toInt (by decide) bits).symm trivial
    | uint64 =>
      show quantFromFileType (bits.toNat % 2 ^ 32) = quantOf (bits.toNat : ℤ) ↔ _
      rw [quantOf_natCast]
      exact quantFromFileType_mod_iff bits.toNat
    | int64 =>
      show quantFromFileType (bits.toNat % 2 ^ 32) = quantOf bits.toInt ↔ _
      rw [quantOf_toInt (by decide)]
      exact quantFromFileType_mod_iff bits.toNat
    | float32 => exact iff_of_true rfl trivial
    | bool => exact iff_of_true rfl trivial
    | float64 => exact iff_of_true rfl trivial
  | string s => exact iff_of_true rfl trivial
  | array a => exact iff_of_true rfl trivial

/-! ## The header -/

namespace GgufHeader

variable (h : GgufHeader)

/-- What is known after all pairs of a header, as a fold of what a single pair adds to the
scan, in the order of the header. -/
def scanned : GgufScan := h.pairs.foldl GgufScan.after ⟨FileMeta.gguf, none⟩

theorem get_scanned (f : GgufField) : h.scanned.fileMeta.get f = textOf h.pairs f.key := by
  have hread : ∀ (scan : GgufScan) (p : GgufPair), (scan.after p).fileMeta.get f
      = if p.1 = f.key then p.2.text else scan.fileMeta.get f := fun _ _ => GgufScan.get_after f
  refine (GgufScan.foldl_after (fun scan => scan.fileMeta.get f) hread h.keys_nodup
    ⟨FileMeta.gguf, none⟩).trans ?_
  unfold textOf
  cases valueOf h.pairs f.key with
  | none => cases f <;> rfl
  | some v => rfl

theorem fileType_scanned :
    h.scanned.fileType = (valueOf h.pairs fileTypeKey).bind GgufValue.word := by
  have hread : ∀ (scan : GgufScan) (p : GgufPair), (scan.after p).fileType
      = if p.1 = fileTypeKey then p.2.word else scan.fileType :=
    fun _ _ => GgufScan.fileType_after
  refine (GgufScan.foldl_after GgufScan.fileType hread h.keys_nodup
    ⟨FileMeta.gguf, none⟩).trans ?_
  cases valueOf h.pairs fileTypeKey with
  | none => rfl
  | some v => rfl

/-- **What is known after all pairs** is what the header says, but for the label. -/
theorem fileMeta_scanned :
    h.scanned.fileMeta = { h.fileMeta with quantization := none } := by
  have hname := h.get_scanned .name
  have harchitecture := h.get_scanned .architecture
  have hsizeLabel := h.get_scanned .sizeLabel
  have hlicense := h.get_scanned .license
  have hbasename := h.get_scanned .basename
  have hfinetune := h.get_scanned .finetune
  have hsource := GgufScan.sourceUrl_foldl h.pairs ⟨FileMeta.gguf, none⟩
  obtain ⟨hformat, hquant⟩ := GgufScan.format_foldl h.pairs ⟨FileMeta.gguf, none⟩
  unfold fileMeta
  rw [FileMeta.mk.injEq]
  exact ⟨hformat, hname, harchitecture, hquant, hsizeLabel, hlicense, hbasename, hfinetune,
    hsource⟩

/-- The pairs are read behind the two counts. -/
theorem readGgufMeta_write (rest : Bytes) : readGgufMeta h.version (h.write ++ rest)
    = (readEntries h.pairs.length ⟨FileMeta.gguf, none⟩ >>= fun scan =>
        match scan.fileType with
        | some ft => pure { scan.fileMeta with quantization := quantFromFileType ft }
        | none => pure scan.fileMeta) (h.pairs.flatMap GgufPair.write ++ rest) := by
  have hversion : 2 ≤ h.version := by
    obtain hv | hv := h.version_two_three
    · exact hv.ge
    · exact hv.ge.trans' (by decide)
  have hlength : h.pairs.length < 256 ^ 8 := Nat.lt_of_le_of_lt h.pairs_le (by decide)
  have hcount : h.tensorCount < 256 ^ 8 := h.tensorCount_lt
  unfold readGgufMeta write
  rw [if_pos hversion, List.append_assoc, List.append_assoc, bind_of_ok (readLe_toLe hcount _),
    bind_of_ok (readLe_toLe hlength _)]
  have hmin : min h.pairs.length ggufMaxKv = h.pairs.length := Nat.min_eq_left h.pairs_le
  generalize min h.pairs.length ggufMaxKv = n at hmin ⊢
  subst hmin
  rfl

theorem pairsFit : PairsFit h.pairs := fun p hp => ⟨(h.fits p hp).2, h.not_blank p hp⟩

/-- **Decoding undoes encoding exactly if** the reader never has to give up and understands
the file type, for the headers with which it stays in step. -/
theorem readsBack_iff (hstep : StaysInStep false h.pairs) :
    h.ReadsBack ↔ NoneNested false h.pairs ∧
      ∀ v, valueOf h.pairs fileTypeKey = some v → FileTypeUnderstood v := by
  have hscan : (⟨FileMeta.gguf, none⟩ : GgufScan).fileMeta.sourceUrl.isSome = false := rfl
  by_cases hnone : NoneNested false h.pairs
  · have hread : ∀ rest, (readGgufMeta h.version (h.write ++ rest)).1
        = .ok { h.fileMeta with
          quantization := h.scanned.fileType.bind quantFromFileType } := by
      intro rest
      have hpairs := (readEntries_write hscan h.pairsFit hstep rest).1 hnone
      rw [readGgufMeta_write, bind_apply]
      rcases hentries : readEntries h.pairs.length ⟨FileMeta.gguf, none⟩
        (h.pairs.flatMap GgufPair.write ++ rest) with ⟨r, left⟩
      rw [hentries] at hpairs
      obtain rfl : r = .ok h.scanned := hpairs
      rw [andThen_ok]
      cases htype : h.scanned.fileType with
      | none => exact congrArg Exit.ok h.fileMeta_scanned
      | some ft =>
        show Exit.ok { h.scanned.fileMeta with quantization := quantFromFileType ft } = _
        rw [h.fileMeta_scanned]
        rfl
    -- everything but the quantization label reads back in any case
    have hlabel : h.ReadsBack ↔
        h.scanned.fileType.bind quantFromFileType = h.fileMeta.quantization := by
      constructor
      · intro hback
        have heq := (hread []).symm.trans (hback [])
        exact congrArg FileMeta.quantization (Exit.ok.inj heq)
      · intro heq rest
        rw [hread rest, heq]
    rw [hlabel, and_iff_right hnone, fileType_scanned]
    show _ = ((valueOf h.pairs fileTypeKey).bind GgufValue.integer).bind quantOf ↔ _
    cases hvalue : valueOf h.pairs fileTypeKey with
    | none => exact iff_of_true rfl fun v hv => nomatch hv
    | some v =>
      show v.word.bind quantFromFileType = v.integer.bind quantOf ↔ _
      rw [fileTypeUnderstood_iff]
      exact ⟨fun hv w hw => Option.some.inj hw ▸ hv, fun hall => hall v rfl⟩
  · refine iff_of_false (fun hback => ?_) fun hboth => hnone hboth.1
    have hgives := (readEntries_write hscan h.pairsFit hstep []).2 hnone
    have heq := hback []
    rw [readGgufMeta_write, bind_apply] at heq
    rcases hentries : readEntries h.pairs.length ⟨FileMeta.gguf, none⟩
      (h.pairs.flatMap GgufPair.write ++ []) with ⟨r, left⟩
    rw [hentries] at hgives heq
    obtain rfl : r = .err () := hgives
    cases heq

end GgufHeader

/-! ## A header that is read back, and one that is not -/

/-- A header with a name and a file type, behind two values that are skipped. -/
def tinyModel : GgufHeader where
  version := 3
  tensorCount := 0
  pairs := [("tokenizer.ggml.tokens".toList, .array (.strings ["a".toList, "b".toList])),
    ("tokenizer.chat_template".toList, .string "Say it.".toList),
    ("general.name".toList, .string "Tiny Test Model".toList),
    (fileTypeKey, .scalar ⟨.uint32, 15⟩)]
  version_two_three := Or.inr rfl
  tensorCount_lt := by decide
  pairs_le := by decide
  keys_nodup := by decide
  fits := by
    refine List.forall_mem_cons.mpr ⟨⟨by decide, ?_⟩, List.forall_mem_cons.mpr
      ⟨⟨by decide, ?_⟩, List.forall_mem_cons.mpr ⟨⟨by decide, ?_⟩,
        List.forall_mem_singleton.mpr ⟨by decide, trivial⟩⟩⟩⟩
    · show (["a".toList, "b".toList].map fun s => (utf8 s).length + 8).sum ≤ ggufMaxArrayBytes
      decide
    · show (utf8 "Say it.".toList).length < 2 ^ 64
      decide
    · show (utf8 "Tiny Test Model".toList).length < 2 ^ 64
      decide
  not_blank := by
    refine List.forall_mem_cons.mpr ⟨fun h => ?_, List.forall_mem_cons.mpr ⟨fun h => ?_,
      List.forall_mem_cons.mpr ⟨fun _ s hs => ?_, List.forall_mem_singleton.mpr fun _ s hs => ?_⟩⟩⟩
    · exact absurd h (by decide)
    · exact absurd h (by decide)
    · obtain rfl := Option.some.inj hs
      decide
    · cases hs

/-- A small header is read back. -/
theorem tinyModel_readsBack : tinyModel.ReadsBack := by
  have hshort : ∀ s ∈ ["tokenizer.ggml.tokens".toList, "tokenizer.chat_template".toList,
      "general.name".toList, fileTypeKey, "a".toList, "b".toList, "Say it.".toList,
      "Tiny Test Model".toList], Short s := by
    unfold Short
    decide
  refine (GgufHeader.readsBack_iff tinyModel ?_).mpr ⟨?_, ?_⟩
  · have htokens : ∀ s ∈ ["a".toList, "b".toList], Short s :=
      List.forall_mem_cons.mpr ⟨hshort _ (by decide),
        List.forall_mem_singleton.mpr (hshort _ (by decide))⟩
    exact ⟨hshort _ (by decide), Or.inl htokens, hshort _ (by decide),
      Or.inl (hshort _ (by decide)), hshort _ (by decide), Or.inl (hshort _ (by decide)),
      hshort _ (by decide), trivial, trivial⟩
  · exact ⟨fun h => h.elim, fun h => h.elim, fun h => h.elim, fun h => h.elim, trivial⟩
  · intro v hv
    obtain rfl : _ = v := Option.some.inj hv
    trivial

/-- A chat template longer than 64 KiB by one byte, which the reader does not skip to its end. -/
def longTemplate : Text := List.replicate 65537 'a'

theorem utf8_replicate (n : ℕ) : utf8 (List.replicate n 'a') = List.replicate n 0x61 := by
  induction n with
  | zero => rfl
  | succ n ih =>
    rw [List.replicate_succ, List.replicate_succ, ← ih]
    rfl

/-- A header with a long string before the name: the chat template is one byte longer than
what the reader skips, so the name after it is not found. -/
def longTemplateModel : GgufHeader where
  version := 3
  tensorCount := 0
  pairs := [("tokenizer.chat_template".toList, .string longTemplate),
    ("general.name".toList, .string "A".toList)]
  version_two_three := Or.inr rfl
  tensorCount_lt := by decide
  pairs_le := by decide
  keys_nodup := by decide
  fits := by
    intro p hp
    obtain rfl | hp := List.mem_cons.mp hp
    · refine ⟨by decide, ?_⟩
      show (utf8 longTemplate).length < 2 ^ 64
      rw [longTemplate, utf8_replicate, List.length_replicate]
      decide
    · obtain rfl := List.mem_singleton.mp hp
      exact ⟨by decide, show (utf8 "A".toList).length < 2 ^ 64 by decide⟩
  not_blank := by
    intro p hp hexposed s hs
    obtain rfl | hp := List.mem_cons.mp hp
    · exact absurd hexposed (by decide)
    · obtain rfl := List.mem_singleton.mp hp
      obtain rfl := Option.some.inj hs
      decide

/-- What is left of the long string is read as the length of a key that is not there. -/
theorem readGgufString_behind : readGgufString
    (0x61 :: GgufPair.write ("general.name".toList, .string "A".toList)) = (.err (), []) := by
  have hbytes : (0x61 :: GgufPair.write ("general.name".toList, .string "A".toList) : Bytes)
      = toLe 8 3169 ++ (0 :: (utf8 "general.name".toList ++
        (toLe 4 8 ++ writeString "A".toList))) := by
    decide
  have hfew : ¬ min 3169 ggufMaxStr ≤ (0 :: (utf8 "general.name".toList ++
      (toLe 4 8 ++ writeString "A".toList)) : Bytes).length := by
    decide
  unfold readGgufString
  rw [hbytes, bind_of_ok (readU64_toLe (by decide) _), bind_apply,
    show readExact (min 3169 ggufMaxStr) _ = _ from if_neg hfew]
  rfl

/-- The reader takes the beginning of the long string and stands before its last byte. -/
theorem readEntry_longTemplate (rest : Bytes) :
    readEntry "tokenizer.chat_template".toList 8 ⟨FileMeta.gguf, none⟩
      (writeString longTemplate ++ rest) = (.ok ⟨FileMeta.gguf, none⟩, 0x61 :: rest) := by
  have hlen : (utf8 longTemplate).length < 256 ^ 8 := by
    rw [longTemplate, utf8_replicate, List.length_replicate]
    decide
  have hskip : skipGgufValue 8 (writeString longTemplate ++ rest) = (.ok (), 0x61 :: rest) := by
    unfold skipGgufValue writeString
    rw [if_pos rfl, List.append_assoc, bind_of_ok (readU64_toLe hlen _), longTemplate,
      utf8_replicate, List.length_replicate, skip_apply]
    · rw [List.drop_append_of_le_length, List.drop_replicate]
      · rfl
      · rw [List.length_replicate]
        decide
    · rw [List.length_append, List.length_replicate]
      exact Nat.le_add_right_of_le (by decide)
  have hother : ∀ s, readEntry "tokenizer.chat_template".toList 8 ⟨FileMeta.gguf, none⟩ s
      = (skipGgufValue 8 >>= fun _ => pure ⟨FileMeta.gguf, none⟩) s := fun _ => rfl
  rw [hother, bind_of_ok hskip]
  rfl

/-- **Behind a string longer than 64 KiB everything is lost**: the rest of the string is
read as the next pair's key. -/
theorem longTemplateModel_not_readsBack :
    longTemplateModel.fileMeta.name = some "A".toList ∧ ¬ longTemplateModel.ReadsBack := by
  refine ⟨rfl, fun hback => ?_⟩
  have hpairs : longTemplateModel.pairs.flatMap GgufPair.write
      = GgufPair.write ("tokenizer.chat_template".toList, .string longTemplate) ++
        GgufPair.write ("general.name".toList, .string "A".toList) := by
    unfold longTemplateModel
    rw [List.flatMap_cons, List.flatMap_singleton]
  have hread : readEntries 2 ⟨FileMeta.gguf, none⟩ (longTemplateModel.pairs.flatMap
      GgufPair.write ++ []) = (.err (), []) := by
    have hwrite : (GgufValue.string longTemplate).write = writeString longTemplate := rfl
    have htag : (GgufValue.string longTemplate).tag = 8 := rfl
    rw [List.append_nil, hpairs, readEntries_cons (by unfold Short; decide), hwrite, htag,
      bind_of_ok (readEntry_longTemplate _), readEntries, bind_apply, readGgufString_behind]
    rfl
  have heq := hback []
  rw [GgufHeader.readGgufMeta_write, bind_apply,
    show longTemplateModel.pairs.length = 2 from rfl, hread] at heq
  cases heq

end Atlas
