import Mathlib.Logic.Equiv.Defs
import Atlas.Json

/-!
# Reading and writing JSON

How a derived reader and writer treat a type: what they accept, what they write, and
which documents they write back as they were. A reader is more tolerant than the
writer: it fills in defaults, ignores members it does not know, and accepts a list
of values for an object and an object for a bare name. A document is `verbatim` when
it uses none of that.

A `Codec` carries the proof that what is read is written back the same, up to the order
of members, exactly if it was verbatim, and that values that are written alike are
the same. The combinators below build codecs of records, lists and tagged unions from
those of their parts, so that a type's codec says how the type is declared.
-/

open Text

namespace Json

/-- A reader and writer of a type, with a test that says whether writing back gives the
document that was read. -/
structure Codec (α : Type) where
  decode : Json → Option α
  encode : α → Json
  /-- The document uses nothing that is not written back. -/
  verbatim : Json → Bool
  verbatim_iff : ∀ {j : Json} {a : α}, decode j = some a →
    ((encode a).canonical = j.canonical ↔ verbatim j = true)
  injective : ∀ {a b : α}, (encode a).canonical = (encode b).canonical → a = b

namespace Codec

variable {α β : Type}

/-! ## Atoms -/

/-- A text is written as a string, and read from nothing else. -/
def text : Codec Text where
  decode
    | str s => some s
    | _ => none
  encode := str
  verbatim _ := true
  verbatim_iff := by
    intro j s h
    cases j with
    | str t =>
      cases h
      exact ⟨fun _ => rfl, fun _ => rfl⟩
    | _ => cases h
  injective h := str.inj h

/-- A truth value is written as one, and read from nothing else. -/
def boolean : Codec Bool where
  decode
    | bool b => some b
    | _ => none
  encode := bool
  verbatim _ := true
  verbatim_iff := by
    intro j b h
    cases j with
    | bool c =>
      cases h
      exact ⟨fun _ => rfl, fun _ => rfl⟩
    | _ => cases h
  injective h := bool.inj h

/-- The natural number that a number is, below a bound; only the spelling that the printer
would choose is read, so that the round trip is exact. -/
def natOf (bound : ℕ) (n : JsonNumber) : Option ℕ :=
  let m := Nat.ofDigitChars 10 n.text 0
  if m < bound ∧ n = ofNat m then some m else none

theorem natOf_ofNat {bound n : ℕ} (h : n < bound) : natOf bound (ofNat n) = some n := by
  have hvalue : Nat.ofDigitChars 10 (ofNat n).text 0 = n := by
    show Nat.ofDigitChars 10 n.repr.toList 0 = n
    rw [Nat.toList_repr]
    simp
  unfold natOf
  rw [hvalue]
  exact if_pos ⟨h, rfl⟩

/-- An unsigned integer below a bound; a fraction, an exponent or a sign is refused. -/
def unsigned (bound : ℕ) : Codec ℕ where
  decode
    | num n => natOf bound n
    | _ => none
  encode n := num (ofNat n)
  verbatim _ := true
  verbatim_iff := by
    intro j m h
    cases j with
    | num n =>
      dsimp only [natOf] at h
      split at h
      · rename_i hn
        cases h
        exact ⟨fun _ => rfl, fun _ => congrArg num hn.2.symm⟩
      · cases h
    | _ => cases h
  injective h := ofNat_injective (num.inj h)

/-- The integer that a sign and digits stand for; a minus sign only stands before the
digits, and no text is refused here. -/
def intText : Text → ℤ
  | '-' :: digits => -(Nat.ofDigitChars 10 digits 0)
  | digits => Nat.ofDigitChars 10 digits 0

/-- The integer that a number is, within bounds and in plain decimal form. -/
def intOf (low high : ℤ) (n : JsonNumber) : Option ℤ :=
  let i : ℤ := intText n.text
  if low ≤ i ∧ i < high ∧ n = ofInt i then some i else none

theorem intOf_ofInt {low high i : ℤ} (hlow : low ≤ i) (hhigh : i < high) :
    intOf low high (ofInt i) = some i := by
  have hdigits : ∀ n : ℕ, Nat.ofDigitChars 10 n.repr.toList 0 = n := by
    intro n
    rw [Nat.toList_repr]
    simp
  have hvalue : intText (ofInt i).text = i := by
    cases i with
    | ofNat n =>
      show intText n.repr.toList = _
      unfold intText
      split
      · rename_i digits htext
        have hmem : '-' ∈ n.repr.toList := htext ▸ List.mem_cons_self
        rw [Nat.toList_repr] at hmem
        exact absurd (Nat.isDigit_of_mem_toDigits (by decide) (by decide) hmem) (by decide)
      · rw [hdigits]
        rfl
    | negSucc n =>
      show -((Nat.ofDigitChars 10 (n + 1).repr.toList 0 : ℕ) : ℤ) = _
      rw [hdigits]
      rfl
  unfold intOf
  rw [hvalue]
  exact if_pos ⟨hlow, hhigh, rfl⟩

theorem ofInt_of_intOf {low high i : ℤ} {n : JsonNumber} (h : intOf low high n = some i) :
    n = ofInt i := by
  have hguard : ∀ k : ℤ, (if low ≤ k ∧ k < high ∧ n = ofInt k then some k else none) = some i →
      n = ofInt i := by
    intro k hk
    split at hk
    · rename_i hn
      cases hk
      exact hn.2.2
    · cases hk
  exact hguard _ h

/-- A signed integer within bounds; a fraction or an exponent is refused. -/
def signed (low high : ℤ) : Codec ℤ where
  decode
    | num n => intOf low high n
    | _ => none
  encode i := num (ofInt i)
  verbatim _ := true
  verbatim_iff := by
    intro j i h
    cases j with
    | num n =>
      exact ⟨fun _ => rfl, fun _ => congrArg (fun m => (num m).canonical) (ofInt_of_intOf h).symm⟩
    | _ => cases h
  injective h := ofInt_injective (num.inj h)

/-- One of several names. The name alone is written; an object whose only member is
the name, with nothing as its value, is read too. -/
def choice (name : α → Text) (ofName : Text → Option α) (isUnit : Json → Bool)
    (hname : ∀ s a, ofName s = some a → name a = s)
    (hof : ∀ a, ofName (name a) = some a) : Codec α where
  decode
    | str s => ofName s
    | obj [(k, v)] => if isUnit v then ofName k else none
    | _ => none
  encode a := str (name a)
  verbatim
    | str _ => true
    | _ => false
  verbatim_iff := by
    intro j a h
    split at h
    · rename_i s
      refine ⟨fun _ => rfl, fun _ => ?_⟩
      rw [hname s a h]
    · exact ⟨fun heq => (nomatch heq), fun hfalse => (nomatch hfalse)⟩
    · cases h
  injective {a b} h := by
    have heq : name a = name b := str.inj h
    have hboth := hof a
    rw [heq, hof b] at hboth
    exact (Option.some.inj hboth).symm

/-- The same documents under another type, which has as many values. -/
def iso (c : Codec α) (e : α ≃ β) : Codec β where
  decode j := (c.decode j).map e
  encode b := c.encode (e.symm b)
  verbatim := c.verbatim
  verbatim_iff := by
    intro j b h
    obtain ⟨a, ha, rfl⟩ := Option.map_eq_some_iff.mp h
    rw [e.symm_apply_apply]
    exact c.verbatim_iff ha
  injective h := e.symm.injective (c.injective h)

/-! ## Lists -/

theorem map_canonical_inj (c : Codec α) {as bs : List α}
    (h : (as.map c.encode).map canonical = (bs.map c.encode).map canonical) : as = bs := by
  rw [List.map_map, List.map_map] at h
  exact List.map_injective_iff.mpr (fun _ _ hab => c.injective hab) h

/-- A list is written as an array, and is read if each of its items is. -/
def list (c : Codec α) : Codec (List α) where
  decode
    | arr items => items.mapM c.decode
    | _ => none
  encode as := arr (as.map c.encode)
  verbatim
    | arr items => items.all c.verbatim
    | _ => false
  verbatim_iff := by
    intro j as h
    cases j with
    | arr items =>
      show _ ↔ items.all c.verbatim = true
      rw [canonical_arr_inj]
      replace h : items.mapM c.decode = some as := h
      induction items generalizing as with
      | nil =>
        cases h
        exact ⟨fun _ => rfl, fun _ => rfl⟩
      | cons j items ih =>
        rw [List.mapM_cons] at h
        obtain ⟨a, ha, hrest⟩ := Option.bind_eq_some_iff.mp h
        obtain ⟨as', has', hcons⟩ := Option.bind_eq_some_iff.mp hrest
        cases hcons
        rw [List.map_cons, List.map_cons, List.map_cons, List.cons_eq_cons, List.all_cons,
          Bool.and_eq_true]
        exact and_congr (c.verbatim_iff ha) (ih has')
    | _ => cases h
  injective {as bs} h := c.map_canonical_inj (canonical_arr_inj.mp h)

/-- A list of which the items that cannot be read are dropped. An item is read from
the table of its members. -/
def lenient (c : Codec α) : Codec (List α) where
  decode
    | arr items => some (items.filterMap fun j => c.decode j.canonical)
    | _ => none
  encode as := arr (as.map c.encode)
  verbatim
    | arr items => items.all fun j => (c.decode j.canonical).isSome && c.verbatim j.canonical
    | _ => false
  verbatim_iff := by
    intro j as h
    cases j with
    | arr items =>
      cases h
      show _ ↔ (items.all fun j => (c.decode j.canonical).isSome && c.verbatim j.canonical) = true
      rw [canonical_arr_inj]
      constructor
      · intro heq
        -- nothing was dropped, so each item is read and written back
        have hlength : (items.filterMap fun j => c.decode j.canonical).length = items.length := by
          simpa only [List.length_map] using congrArg List.length heq
        have hsome := List.filterMap_length_eq_length.mp hlength
        clear hlength
        induction items with
        | nil => rfl
        | cons j items ih =>
          obtain ⟨a, ha⟩ := Option.isSome_iff_exists.mp (hsome j List.mem_cons_self)
          rw [List.filterMap_cons, ha, List.map_cons, List.map_cons, List.map_cons] at heq
          obtain ⟨hj, hitems⟩ := List.cons.inj heq
          rw [List.all_cons, ih hitems fun j' hj' => hsome j' (List.mem_cons_of_mem j hj'),
            Bool.and_true, ha]
          refine (c.verbatim_iff ha).mp ?_
          rw [canonical_canonical]
          exact hj
      · intro hall
        induction items with
        | nil => rfl
        | cons j items ih =>
          rw [List.all_cons, Bool.and_eq_true, Bool.and_eq_true] at hall
          obtain ⟨⟨hsome, hverbatim⟩, hitems⟩ := hall
          obtain ⟨a, ha⟩ := Option.isSome_iff_exists.mp hsome
          rw [List.filterMap_cons, ha, List.map_cons, List.map_cons, List.map_cons, ih hitems,
            (c.verbatim_iff ha).mpr hverbatim, canonical_canonical]
    | _ => cases h
  injective {as bs} h := c.map_canonical_inj (canonical_arr_inj.mp h)

end Codec

/-! ## Members -/

/-- A member of an object: its name, and what it is when it is there and when it is not. -/
structure Member (α : Type) where
  name : Text
  decode : Option Json → Option α
  encode : α → Option Json
  verbatim : Option Json → Bool
  verbatim_iff : ∀ {o : Option Json} {a : α}, decode o = some a →
    ((encode a).map canonical = o.map canonical ↔ verbatim o = true)
  injective : ∀ {a b : α}, (encode a).map canonical = (encode b).map canonical → a = b

namespace Member

variable {α : Type}

/-- A member that has to be there; reading fails where it is missing. -/
def required (name : Text) (c : Codec α) : Member α where
  name := name
  decode o := o.bind c.decode
  encode a := some (c.encode a)
  verbatim
    | none => false
    | some j => c.verbatim j
  verbatim_iff := by
    intro o a h
    cases o with
    | none => cases h
    | some j => exact (Option.some_inj).trans (c.verbatim_iff h)
  injective h := c.injective (Option.some.inj h)

/-- A member with a default, which is always written; a document that lacks it is read with
the default, and is not verbatim for this reason. -/
def defaulted (name : Text) (c : Codec α) (default : α) : Member α where
  name := name
  decode
    | none => some default
    | some j => c.decode j
  encode a := some (c.encode a)
  verbatim
    | none => false
    | some j => c.verbatim j
  verbatim_iff := by
    intro o a h
    cases o with
    | none => exact ⟨fun heq => (nomatch heq), fun hfalse => (nomatch hfalse)⟩
    | some j => exact (Option.some_inj).trans (c.verbatim_iff h)
  injective h := c.injective (Option.some.inj h)

/-- A member that may be missing, or nothing, and is only written when it is something. -/
def optional (name : Text) (c : Codec α) : Member (Option α) where
  name := name
  decode
    | none => some none
    | some null => some none
    | some j => (c.decode j).map some
  encode a := a.map c.encode
  verbatim
    | none => true
    | some null => false
    | some j => c.verbatim j
  verbatim_iff := by
    intro o a h
    split at h
    · cases h
      exact ⟨fun _ => rfl, fun _ => rfl⟩
    · cases h
      exact ⟨fun heq => (nomatch heq), fun hfalse => (nomatch hfalse)⟩
    · rename_i j _
      obtain ⟨a, ha, rfl⟩ := Option.map_eq_some_iff.mp h
      exact (Option.some_inj).trans (c.verbatim_iff ha)
  injective {a b} h := by
    cases a with
    | none =>
      cases b with
      | none => rfl
      | some b => cases h
    | some a =>
      cases b with
      | none => cases h
      | some b => exact congrArg some (c.injective (Option.some.inj h))

/-- A member with a default that is not written when it is that. -/
def skipped [DecidableEq α] (name : Text) (c : Codec α) (default : α) : Member α where
  name := name
  decode
    | none => some default
    | some j => c.decode j
  encode a := if a = default then none else some (c.encode a)
  verbatim
    | none => true
    | some j => c.verbatim j && decide (c.decode j ≠ some default)
  verbatim_iff := by
    intro o a h
    cases o with
    | none =>
      cases h
      rw [if_pos rfl]
      exact ⟨fun _ => rfl, fun _ => rfl⟩
    | some j =>
      dsimp only at h ⊢
      rw [h, Bool.and_eq_true, decide_eq_true_iff]
      by_cases hdefault : a = default
      · rw [if_pos hdefault]
        exact ⟨fun heq => (nomatch heq), fun hboth => absurd (congrArg some hdefault) hboth.2⟩
      · rw [if_neg hdefault]
        refine (Option.some_inj).trans ((c.verbatim_iff h).trans ?_)
        exact (and_iff_left fun heq => hdefault (Option.some.inj heq)).symm
  injective {a b} h := by
    by_cases ha : a = default
    · by_cases hb : b = default
      · rw [ha, hb]
      · rw [if_pos ha, if_neg hb] at h
        cases h
    · by_cases hb : b = default
      · rw [if_neg ha, if_pos hb] at h
        cases h
      · rw [if_neg ha, if_neg hb] at h
        exact c.injective (Option.some.inj h)

end Member

/-! ## Objects -/

/-- The members of an object, of which a list of values gives those it has in order. -/
structure Record (α : Type) where
  names : List Text
  decode : (Text → Option Json) → Option α
  decodeSeq : List Json → Option (α × List Json)
  encode : α → List (Text × Json)
  verbatim : (Text → Option Json) → Bool
  member_encode : ∀ (a : α) (k : Text), k ∉ names → member k (encode a) = none
  verbatim_iff : ∀ {get : Text → Option Json} {a : α}, decode get = some a →
    ((∀ k ∈ names, (member k (encode a)).map canonical = (get k).map canonical) ↔
      verbatim get = true)
  injective : ∀ {a b : α}, (∀ k ∈ names, (member k (encode a)).map canonical =
    (member k (encode b)).map canonical) → a = b
  decode_congr : ∀ {get get' : Text → Option Json}, (∀ k ∈ names, get k = get' k) →
    decode get = decode get'
  /-- A list of values is an object with these members. -/
  decodeSeq_eq : ∀ {items rest : List Json} {a : α}, decodeSeq items = some (a, rest) →
    rest = items.drop names.length ∧ decode (fun k => items[names.idxOf k]?) = some a

namespace Record

variable {α β : Type}

/-- A member, as it is written: a pair of its name and its value, or nothing where it is
left out. -/
def written (name : Text) : Option Json → List (Text × Json)
  | none => []
  | some j => [(name, j)]

theorem member_written (k name : Text) (o : Option Json) :
    member k (written name o) = if k = name then o else none := by
  cases o with
  | none =>
    show none = _
    split <;> rfl
  | some j => rfl

/-- One member, as a record of its own that others are put together with. -/
def single (f : Member α) : Record α where
  names := [f.name]
  decode get := f.decode (get f.name)
  decodeSeq
    | [] => (f.decode none).map fun a => (a, [])
    | j :: items => (f.decode (some j)).map fun a => (a, items)
  encode a := written f.name (f.encode a)
  verbatim get := f.verbatim (get f.name)
  member_encode := by
    intro a k hk
    rw [member_written, if_neg fun heq => hk (List.mem_singleton.mpr heq)]
  verbatim_iff := by
    intro get a h
    rw [← f.verbatim_iff h, List.forall_mem_singleton, member_written, if_pos rfl]
  injective := by
    intro a b h
    have hname := h f.name List.mem_cons_self
    rw [member_written, member_written, if_pos rfl, if_pos rfl] at hname
    exact f.injective hname
  decode_congr h := congrArg f.decode (h f.name List.mem_cons_self)
  decodeSeq_eq := by
    intro items rest a h
    have hfirst : [f.name].idxOf f.name = 0 := List.idxOf_cons_self
    dsimp only
    rw [hfirst]
    cases items with
    | nil =>
      obtain ⟨b, hb, heq⟩ := Option.map_eq_some_iff.mp h
      cases heq
      exact ⟨rfl, hb⟩
    | cons j items =>
      obtain ⟨b, hb, heq⟩ := Option.map_eq_some_iff.mp h
      cases heq
      exact ⟨rfl, hb⟩

theorem member_append (k : Text) (fields fields' : List (Text × Json)) :
    member k (fields ++ fields') = (member k fields').or (member k fields) := by
  induction fields with
  | nil => exact (Option.or_none).symm
  | cons f fields ih =>
    rw [List.cons_append, member, member, ih, Option.or_assoc]

/-- Members of one record, and then those of another, whose names are disjoint; each record
reads its own members and ignores those of the other. -/
def append (r : Record α) (r' : Record β) (hdisjoint : ∀ k ∈ r.names, k ∉ r'.names) :
    Record (α × β) where
  names := r.names ++ r'.names
  decode get := (r.decode get).bind fun a => (r'.decode get).map (Prod.mk a)
  decodeSeq items :=
    (r.decodeSeq items).bind fun p => (r'.decodeSeq p.2).map fun q => ((p.1, q.1), q.2)
  encode p := r.encode p.1 ++ r'.encode p.2
  verbatim get := r.verbatim get && r'.verbatim get
  member_encode := by
    intro p k hk
    obtain ⟨hnot, hnot'⟩ := not_or.mp fun h => hk (List.mem_append.mpr h)
    rw [member_append, r.member_encode p.1 k hnot, r'.member_encode p.2 k hnot']
    rfl
  verbatim_iff := by
    intro get p h
    obtain ⟨a, ha, hrest⟩ := Option.bind_eq_some_iff.mp h
    obtain ⟨b, hb, rfl⟩ := Option.map_eq_some_iff.mp hrest
    rw [Bool.and_eq_true, ← r.verbatim_iff ha, ← r'.verbatim_iff hb, List.forall_mem_append]
    refine and_congr (forall₂_congr fun k hk => ?_) (forall₂_congr fun k hk => ?_)
    · rw [member_append, r'.member_encode b k (hdisjoint k hk), Option.none_or]
    · rw [member_append, r.member_encode a k fun hk' => hdisjoint k hk' hk, Option.or_none]
  injective := by
    rintro ⟨a, b⟩ ⟨a', b'⟩ h
    obtain ⟨hfirst, hsecond⟩ := List.forall_mem_append.mp h
    refine Prod.ext (r.injective fun k hk => ?_) (r'.injective fun k hk => ?_)
    · have hk' := hfirst k hk
      rwa [member_append, member_append, r'.member_encode b k (hdisjoint k hk),
        r'.member_encode b' k (hdisjoint k hk), Option.none_or, Option.none_or] at hk'
    · have hk' := hsecond k hk
      have hnot : k ∉ r.names := fun hmem => hdisjoint k hmem hk
      rwa [member_append, member_append, r.member_encode a k hnot, r.member_encode a' k hnot,
        Option.or_none, Option.or_none] at hk'
  decode_congr := by
    intro get get' h
    obtain ⟨hfirst, hsecond⟩ := List.forall_mem_append.mp h
    rw [r.decode_congr hfirst, r'.decode_congr hsecond]
  decodeSeq_eq := by
    rintro items rest ⟨a, b⟩ h
    obtain ⟨p, hp, hrest⟩ := Option.bind_eq_some_iff.mp h
    obtain ⟨q, hq, heq⟩ := Option.map_eq_some_iff.mp hrest
    obtain ⟨⟨rfl, rfl⟩, rfl⟩ := Prod.mk.inj heq |>.imp_left Prod.mk.inj
    obtain ⟨hdrop, hfirst⟩ := r.decodeSeq_eq hp
    obtain ⟨hend, hsecond⟩ := r'.decodeSeq_eq hq
    refine ⟨by rw [hend, hdrop, List.drop_drop, List.length_append], ?_⟩
    refine Option.bind_eq_some_iff.mpr ⟨p.1, ?_, Option.map_eq_some_iff.mpr ⟨q.1, ?_, rfl⟩⟩
    · rw [← hfirst]
      refine r.decode_congr fun k hk => ?_
      rw [List.idxOf_append_of_mem hk]
    · rw [← hsecond]
      refine r'.decode_congr fun k hk => ?_
      have hnot : k ∉ r.names := fun hmem => hdisjoint k hmem hk
      rw [List.idxOf_append_of_notMem hnot, hdrop, List.getElem?_drop, Nat.add_comm]

/-- One more member, before the others, under a name that none of them has. -/
def cons (f : Member α) (r : Record β) (hnew : f.name ∉ r.names) : Record (α × β) :=
  append (single f) r fun _ hk => (List.mem_singleton.mp hk) ▸ hnew

/-- The same members under another type, which has as many values. -/
def iso (r : Record α) (e : α ≃ β) : Record β where
  names := r.names
  decode get := (r.decode get).map e
  decodeSeq items := (r.decodeSeq items).map fun p => (e p.1, p.2)
  encode b := r.encode (e.symm b)
  verbatim := r.verbatim
  member_encode b := r.member_encode (e.symm b)
  verbatim_iff := by
    intro get b h
    obtain ⟨a, ha, rfl⟩ := Option.map_eq_some_iff.mp h
    rw [e.symm_apply_apply]
    exact r.verbatim_iff ha
  injective h := e.symm.injective (r.injective h)
  decode_congr h := congrArg (Option.map e) (r.decode_congr h)
  decodeSeq_eq := by
    intro items rest b h
    obtain ⟨p, hp, heq⟩ := Option.map_eq_some_iff.mp h
    obtain ⟨rfl, rfl⟩ := Prod.mk.inj heq
    obtain ⟨hdrop, hdecode⟩ := r.decodeSeq_eq hp
    exact ⟨hdrop, by rw [hdecode]; rfl⟩

/-- What is read of the members of an object. -/
theorem decode_cons {f : Member α} {r : Record β} {hnew : f.name ∉ r.names}
    {get : Text → Option Json} {a : α} {b : β} :
    (cons f r hnew).decode get = some (a, b) ↔
      f.decode (get f.name) = some a ∧ r.decode get = some b := by
  show ((f.decode (get f.name)).bind fun a => (r.decode get).map (Prod.mk a)) = some (a, b) ↔ _
  constructor
  · intro h
    obtain ⟨a', ha, hrest⟩ := Option.bind_eq_some_iff.mp h
    obtain ⟨b', hb, heq⟩ := Option.map_eq_some_iff.mp hrest
    cases heq
    exact ⟨ha, hb⟩
  · rintro ⟨ha, hb⟩
    rw [ha, Option.bind_some, hb]
    rfl

end Record

/-- What an object, or a list of the values of its members, has under a name. -/
def pick (names : List Text) (k : Text) : Json → Option Json
  | obj fields => member k fields
  | arr items => items[names.idxOf k]?
  | _ => none

/-- No member of these names is there twice; a reader refuses an object in which one is. -/
def unrepeated (names : List Text) (fields : List (Text × Json)) : Bool :=
  names.all fun k => (fields.filter fun f => f.1 = k).length ≤ 1

/-- A name is there exactly if some member has it. -/
theorem member_eq_none_iff {k : Text} {fields : List (Text × Json)} :
    member k fields = none ↔ ∀ f ∈ fields, f.1 ≠ k := by
  constructor
  · intro h
    induction fields with
    | nil => exact fun f hf => nomatch hf
    | cons f fields ih =>
      rw [member, Option.or_eq_none_iff] at h
      refine List.forall_mem_cons.mpr ⟨fun heq => ?_, ih h.1⟩
      rw [if_pos heq.symm] at h
      cases h.2
  · exact fun h => member_eq_none fun f hf heq => h f hf heq.symm

/-- An object whose members have known names, and the other way round. -/
theorem all_names_iff {names : List Text} {fields : List (Text × Json)} :
    (∀ k ∉ names, member k fields = none) ↔
      (fields.all fun f => names.contains f.1) = true := by
  rw [List.all_eq_true]
  constructor
  · intro h f hf
    by_contra hnot
    have hnone := h f.1 fun hmem => hnot (List.contains_iff_mem.mpr hmem)
    exact member_eq_none_iff.mp hnone f hf rfl
  · intro h k hk
    refine member_eq_none_iff.mpr fun f hf heq => hk ?_
    exact heq ▸ List.contains_iff_mem.mp (h f hf)

namespace Codec

variable {α : Type}

/-- An object with given members. A list of their values, in order, is read too. -/
def object (r : Record α) : Codec α where
  decode
    | obj fields => if unrepeated r.names fields then r.decode (member · fields) else none
    | arr items => match r.decodeSeq items with
      | some (a, []) => some a
      | _ => none
    | _ => none
  encode a := obj (r.encode a)
  verbatim
    | obj fields =>
      (fields.all fun f => r.names.contains f.1) && r.verbatim (member · fields)
    | _ => false
  verbatim_iff := by
    intro j a h
    cases j with
    | obj fields =>
      dsimp only at h ⊢
      split at h
      · rw [canonical_obj_inj, Bool.and_eq_true, ← r.verbatim_iff h, ← all_names_iff]
        constructor
        · intro hall
          refine ⟨fun k hk => ?_, fun k _ => hall k⟩
          have hk' := hall k
          rw [r.member_encode a k hk] at hk'
          exact Option.map_eq_none_iff.mp hk'.symm
        · rintro ⟨hothers, hnames⟩ k
          by_cases hk : k ∈ r.names
          · exact hnames k hk
          · rw [r.member_encode a k hk, hothers k hk]
      · cases h
    | arr items =>
      refine ⟨fun heq => ?_, fun hfalse => (nomatch hfalse)⟩
      rw [canonical, canonical] at heq
      cases heq
    | _ => cases h
  injective h := r.injective fun k _ => canonical_obj_inj.mp h k

/-- **What is read of an object** is what is read of what it has under each name. -/
theorem decode_object {r : Record α} {j : Json} {a : α} (h : (object r).decode j = some a) :
    r.decode (pick r.names · j) = some a := by
  cases j with
  | obj fields =>
    dsimp only [object] at h
    split at h
    · exact h
    · cases h
  | arr items =>
    dsimp only [object] at h
    split at h
    · rename_i hseq
      cases h
      exact (r.decodeSeq_eq hseq).2
    · cases h
  | _ => cases h

/-- The members of a tagged object that are written. -/
theorem member_tagged (r : Record α) {tag : Text} (htag : tag ∉ r.names) (j : Json) (a : α)
    (k : Text) : member k ((tag, j) :: r.encode a) =
      if k = tag then some j else member k (r.encode a) := by
  rw [member]
  by_cases hk : k = tag
  · rw [if_pos hk, if_pos hk, r.member_encode a k (hk ▸ htag)]
    rfl
  · rw [if_neg hk, if_neg hk, Option.or_none]

/-- One of several objects, told apart by a member with the name of which it is. A
list of that name and the values of the members is read too. -/
def tagged {ι : Type} {P : ι → Type} (tag : Text) (name : ι → Text) (ofName : Text → Option ι)
    (hname : ∀ s i, ofName s = some i → name i = s)
    (hof : ∀ i, ofName (name i) = some i) (r : ∀ i, Record (P i))
    (htag : ∀ i, tag ∉ (r i).names) : Codec (Σ i, P i) where
  decode
    | obj fields => match member tag fields with
      | some (str s) => (ofName s).bind fun i =>
        if unrepeated (tag :: (r i).names) fields then
          ((r i).decode (member · fields)).map (Sigma.mk i)
        else none
      | _ => none
    | arr (str s :: items) => (ofName s).bind fun i => match (r i).decodeSeq items with
      | some (a, []) => some ⟨i, a⟩
      | _ => none
    | _ => none
  encode p := obj ((tag, str (name p.1)) :: (r p.1).encode p.2)
  verbatim
    | obj fields => match member tag fields with
      | some (str s) => (ofName s).any fun i =>
        (fields.all fun f => (tag :: (r i).names).contains f.1) &&
          (r i).verbatim (member · fields)
      | _ => false
    | _ => false
  verbatim_iff := by
    intro j p h
    cases j with
    | obj fields =>
      dsimp only at h ⊢
      split at h
      · rename_i s hmember
        obtain ⟨i, hi, hrest⟩ := Option.bind_eq_some_iff.mp h
        split at hrest
        · obtain ⟨a, ha, rfl⟩ := Option.map_eq_some_iff.mp hrest
          dsimp only
          rw [hi, Option.any_some, canonical_obj_inj, Bool.and_eq_true, ← (r i).verbatim_iff ha,
            ← all_names_iff]
          constructor
          · intro hall
            refine ⟨fun k hk => ?_, fun k hk => ?_⟩
            · obtain ⟨hne, hnot⟩ := not_or.mp fun h => hk (List.mem_cons.mpr h)
              have hk' := hall k
              rw [member_tagged (r i) (htag i), if_neg hne, (r i).member_encode a k hnot] at hk'
              exact Option.map_eq_none_iff.mp hk'.symm
            · have hk' := hall k
              have hne : k ≠ tag := fun heq => htag i (heq ▸ hk)
              rwa [member_tagged (r i) (htag i), if_neg hne] at hk'
          · rintro ⟨hothers, hnames⟩ k
            rw [member_tagged (r i) (htag i)]
            by_cases htagged : k = tag
            · rw [if_pos htagged, htagged, hmember, hname s i hi]
            · rw [if_neg htagged]
              by_cases hk : k ∈ (r i).names
              · exact hnames k hk
              · rw [(r i).member_encode a k hk,
                  hothers k fun hmem => (List.mem_cons.mp hmem).elim htagged hk]
        · cases hrest
      · cases h
    | arr items =>
      refine ⟨fun heq => ?_, fun hfalse => (nomatch hfalse)⟩
      rw [canonical, canonical] at heq
      cases heq
    | _ => cases h
  injective := by
    rintro ⟨i, a⟩ ⟨i', a'⟩ h
    have hall := canonical_obj_inj.mp h
    have htags := hall tag
    rw [member_tagged (r i) (htag i), member_tagged (r i') (htag i'), if_pos rfl,
      if_pos rfl] at htags
    have hnames : name i = name i' := str.inj (Option.some.inj htags)
    have hboth := hof i
    rw [hnames, hof i'] at hboth
    obtain rfl := Option.some.inj hboth
    refine congrArg (Sigma.mk i') ((r i').injective fun k hk => ?_)
    have hk' := hall k
    have hne : k ≠ tag := fun heq => htag i' (heq ▸ hk)
    rwa [member_tagged (r i') (htag i'), member_tagged (r i') (htag i'), if_neg hne,
      if_neg hne] at hk'

end Codec

/-! ## All members but one -/

/-- An object without the members of one name; any other document is as it was. -/
def without (name : Text) : Json → Json
  | obj fields => obj (fields.filter fun f => f.1 ≠ name)
  | j => j

/-- The members that are not removed. -/
theorem member_filter (k name : Text) (fields : List (Text × Json)) :
    member k (fields.filter fun f => f.1 ≠ name) = if k = name then none else member k fields := by
  induction fields with
  | nil => exact (ite_self _).symm
  | cons f fields ih =>
    rw [List.filter_cons, member]
    by_cases hf : f.1 = name
    · rw [if_neg (show ¬ decide (f.1 ≠ name) = true from fun h => of_decide_eq_true h hf), ih]
      by_cases hk : k = name
      · rw [if_pos hk, if_pos hk]
      · rw [if_neg hk, if_neg hk, if_neg fun h => hk (h.trans hf), Option.or_none]
    · rw [if_pos (show decide (f.1 ≠ name) = true from decide_eq_true hf), member, ih]
      by_cases hk : k = name
      · rw [if_pos hk, if_pos hk, if_neg fun h => hf (h.symm.trans hk)]
        rfl
      · rw [if_neg hk, if_neg hk]

namespace Record

variable {α β γ : Type}

/-- A document that is written back, up to the members of one name, the way it is. -/
def plain (r : Record α) (name : Text) : Json → Bool
  | obj fields =>
    (fields.all fun f => f.1 = name || r.names.contains f.1) && r.verbatim (member · fields)
  | _ => false

/-- What is written without one more member. -/
theorem without_encode (r : Record α) {f : Member β} (hname : f.name ∉ r.names) (a : α) (b : β) :
    without f.name (obj (r.encode a ++ written f.name (f.encode b))) = obj (r.encode a) := by
  show obj ((r.encode a ++ written f.name (f.encode b)).filter _) = _
  rw [List.filter_append]
  have hbody : (r.encode a).filter (fun g => decide (g.1 ≠ f.name)) = r.encode a := by
    refine List.filter_eq_self.mpr fun g hg => decide_eq_true ?_
    exact member_eq_none_iff.mp (r.member_encode a _ hname) g hg
  have hmember : (written f.name (f.encode b)).filter (fun g => decide (g.1 ≠ f.name)) = [] := by
    cases f.encode b with
    | none => rfl
    | some j => exact List.filter_eq_nil_iff.mpr fun g hg heq =>
        of_decide_eq_true heq (List.mem_singleton.mp hg ▸ rfl)
  rw [hbody, hmember, List.append_nil]

/-- **What is read and written back without one member** is the document without it
exactly if the document is plain. -/
theorem encode_eq_without_iff {r : Record α} {f : Member β} {e : α × β ≃ γ}
    (hname : f.name ∉ r.names) {hdisjoint : ∀ k ∈ r.names, k ∉ (single f).names} {j : Json} {c : γ}
    (h : (Codec.object (iso (append r (single f) hdisjoint) e)).decode j = some c) :
    (obj (r.encode (e.symm c).1)).canonical = (without f.name j).canonical ↔
      r.plain f.name j = true := by
  cases j with
  | obj fields =>
    have hread : r.decode (member · fields) = some (e.symm c).1 := by
      obtain ⟨p, hp, rfl⟩ := Option.map_eq_some_iff.mp (Codec.decode_object h)
      obtain ⟨a, ha, hrest⟩ := Option.bind_eq_some_iff.mp hp
      obtain ⟨b, -, rfl⟩ := Option.map_eq_some_iff.mp hrest
      rw [e.symm_apply_apply]
      exact ha
    show _ = (obj (fields.filter _)).canonical ↔
      ((fields.all _) && r.verbatim (member · fields)) = true
    rw [canonical_obj_inj, Bool.and_eq_true, ← r.verbatim_iff hread]
    constructor
    · intro hall
      refine ⟨List.all_eq_true.mpr fun g hg => ?_, fun k hk => ?_⟩
      · by_contra hother
        obtain ⟨hne, hnames⟩ := not_or.mp fun hor => hother (Bool.or_eq_true_iff.mpr
          (hor.imp decide_eq_true List.contains_iff_mem.mpr))
        have hk := hall g.1
        rw [r.member_encode _ _ hnames, member_filter, if_neg hne] at hk
        have hnone := Option.map_eq_none_iff.mp hk.symm
        exact member_eq_none_iff.mp hnone g hg rfl
      · have hne : k ≠ f.name := fun heq => hname (heq ▸ hk)
        rw [hall k, member_filter, if_neg hne]
    · rintro ⟨hothers, hnames⟩ k
      rw [member_filter]
      by_cases hk : k = f.name
      · rw [if_pos hk, hk, r.member_encode _ _ hname]
      · rw [if_neg hk]
        by_cases hmem : k ∈ r.names
        · exact hnames k hmem
        · have hnone : member k fields = none := by
            refine member_eq_none_iff.mpr fun g hg heq => ?_
            have hor := Bool.or_eq_true_iff.mp (List.all_eq_true.mp hothers g hg)
            obtain hsig | hcontains := hor
            · exact hk (heq ▸ of_decide_eq_true hsig)
            · exact hmem (heq ▸ List.contains_iff_mem.mp hcontains)
          rw [r.member_encode _ _ hmem, hnone]
  | arr items =>
    -- a list of values is no object, even when it is read as one
    refine iff_of_false (fun heq => ?_) Bool.false_ne_true
    have hobj : (obj (r.encode (e.symm c).1)).canonical = (arr items).canonical := heq
    rw [canonical, canonical] at hobj
    cases hobj
  | _ => cases h

end Record

end Json
