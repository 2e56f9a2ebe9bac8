import Atlas.JsonCodec

/-!
# Reading back what was written

A codec says which documents are written back as they were; the other way round is asked
here: what was read of some document, once written, is read again as the same. It is asked
of what is written as well as of its canonical form, since a list that drops what it
cannot read reads its items from there.

Not every value is written so that it can be read: a natural number need not fit where it
stands. So a codec `RoundTrips` for the values it has read, and each combinator does
if its parts do.
-/

open Text

namespace Json

/-- A document, where another type has the name as well; this abbreviation keeps the two
apart where both namespaces are open. -/
abbrev Tree := Json

/-- A document, as it is or in its canonical form, by a flag, so that one lemma serves both
ways of writing a manifest. -/
def form (inOrder : Bool) (j : Json) : Json := if inOrder then j.canonical else j

@[simp] theorem form_null (b : Bool) : null.form b = null := by
  cases b <;> rfl

@[simp] theorem form_bool (b v : Bool) : (bool v).form b = bool v := by
  cases b <;> rfl

@[simp] theorem form_num (b : Bool) (n : JsonNumber) : (num n).form b = num n := by
  cases b <;> rfl

@[simp] theorem form_str (b : Bool) (s : Text) : (str s).form b = str s := by
  cases b <;> rfl

theorem form_arr (b : Bool) (items : List Json) :
    (arr items).form b = arr (items.map (form b)) := by
  cases b with
  | false => exact congrArg arr (List.map_id items).symm
  | true =>
    show (arr items).canonical = arr (items.map canonical)
    rw [canonical, canonicalItems_eq]

/-- Each name is there at most once, whichever members the object has. -/
def Unrepeated {β : Type} (fields : List (Text × β)) : Prop :=
  ∀ k, (fields.filter fun f => f.1 = k).length ≤ 1

theorem unrepeated_of_unrepeated {names : List Text} {fields : List (Text × Json)}
    (h : Unrepeated fields) : unrepeated names fields = true :=
  List.all_eq_true.mpr fun k _ => decide_eq_true (h k)

theorem filter_eq_nil {k : Text} {fields : List (Text × Json)} (h : member k fields = none) :
    fields.filter (fun f => f.1 = k) = [] :=
  List.filter_eq_nil_iff.mpr fun f hf heq => member_eq_none_iff.mp h f hf (of_decide_eq_true heq)

/-- A sorted table has each name at most once. -/
theorem Sorted.unrepeated {β : Type} {fields : List (Text × β)} (h : Sorted fields) :
    Unrepeated fields := by
  intro k
  induction fields with
  | nil => exact Nat.zero_le 1
  | cons f fields ih =>
    obtain ⟨hfirst, hrest⟩ := List.pairwise_cons.mp h
    by_cases hk : f.1 = k
    · have hnone : fields.filter (fun f => decide (f.1 = k)) = [] := by
        refine List.filter_eq_nil_iff.mpr fun f' hf' heq => ?_
        have hlt := hfirst f' hf'
        rw [hk, of_decide_eq_true heq] at hlt
        exact List.lt_irrefl _ hlt
      rw [List.filter_cons, if_pos (decide_eq_true hk), hnone]
      exact Nat.le_refl 1
    · rw [List.filter_cons, if_neg fun heq => hk (of_decide_eq_true heq)]
      exact ih hrest

/-- **An object in either form** has the same members, in that form. -/
theorem form_obj (b : Bool) {fields : List (Text × Json)} (h : Unrepeated fields) :
    ∃ fields', (obj fields).form b = obj fields' ∧ Unrepeated fields' ∧
      ∀ k, member k fields' = (member k fields).map (form b) := by
  cases b with
  | false => exact ⟨fields, rfl, h, fun k => (Option.map_id_fun' ▸ rfl)⟩
  | true =>
    refine ⟨canonicalFields fields, ?_, (sorted_canonicalFields fields).unrepeated,
      fun k => member_canonicalFields k fields⟩
    show (obj fields).canonical = _
    rw [canonical]

/-! ## What round trips -/

namespace Codec

variable {α β : Type}

/-- What the codec has read, it reads again when it is written. -/
def RoundTrips (c : Codec α) : Prop :=
  ∀ (j : Json) (a : α), c.decode j = some a → ∀ b, c.decode ((c.encode a).form b) = some a

theorem text_roundTrips : text.RoundTrips := by
  intro j s _ b
  show text.decode ((str s).form b) = some s
  rw [form_str]
  rfl

theorem boolean_roundTrips : boolean.RoundTrips := by
  intro j v _ b
  show boolean.decode ((bool v).form b) = some v
  rw [form_bool]
  rfl

theorem unsigned_roundTrips (bound : ℕ) : (unsigned bound).RoundTrips := by
  intro j n h b
  have hn : n < bound := by
    cases j with
    | num m =>
      dsimp only [unsigned, natOf] at h
      split at h
      · rename_i hm
        cases h
        exact hm.1
      · cases h
    | _ => cases h
  show (unsigned bound).decode ((num (ofNat n)).form b) = some n
  rw [form_num]
  exact natOf_ofNat hn

theorem choice_roundTrips {name : α → Text} {ofName : Text → Option α} {isUnit : Json → Bool}
    {hname : ∀ s a, ofName s = some a → name a = s}
    {hof : ∀ a, ofName (name a) = some a} :
    (choice name ofName isUnit hname hof).RoundTrips := by
  intro j a _ b
  show (choice name ofName isUnit hname hof).decode ((str (name a)).form b) = some a
  rw [form_str]
  exact hof a

theorem RoundTrips.iso {c : Codec α} (h : c.RoundTrips) (e : α ≃ β) :
    (c.iso e).RoundTrips := by
  intro j x hx b
  obtain ⟨a, ha, rfl⟩ := Option.map_eq_some_iff.mp hx
  show (c.decode ((c.encode (e.symm (e a))).form b)).map e = some (e a)
  rw [e.symm_apply_apply, h j a ha b]
  rfl

/-- Reading a list of items that are each read again. -/
theorem mapM_decode {c : Codec α} {b : Bool} {as : List α}
    (h : ∀ a ∈ as, c.decode ((c.encode a).form b) = some a) :
    ((as.map c.encode).map (form b)).mapM c.decode = some as := by
  induction as with
  | nil => rfl
  | cons a as ih =>
    rw [List.map_cons, List.map_cons, List.mapM_cons, h a List.mem_cons_self,
      ih fun a' ha' => h a' (List.mem_cons_of_mem a ha')]
    rfl

/-- What was read of a list was read of its items. -/
theorem mem_of_mapM {c : Codec α} {items : List Json} {as : List α}
    (h : items.mapM c.decode = some as) {a : α} (ha : a ∈ as) :
    ∃ j, c.decode j = some a := by
  induction items generalizing as with
  | nil =>
    cases h
    cases ha
  | cons j items ih =>
    rw [List.mapM_cons] at h
    obtain ⟨a', ha', hrest⟩ := Option.bind_eq_some_iff.mp h
    obtain ⟨as', has', hcons⟩ := Option.bind_eq_some_iff.mp hrest
    cases hcons
    obtain rfl | hmem := List.mem_cons.mp ha
    · exact ⟨j, ha'⟩
    · exact ih has' hmem

theorem RoundTrips.list {c : Codec α} (h : c.RoundTrips) : c.list.RoundTrips := by
  intro j as has b
  cases j with
  | arr items =>
    show c.list.decode ((arr (as.map c.encode)).form b) = some as
    rw [form_arr]
    refine mapM_decode fun a ha => ?_
    obtain ⟨j, hj⟩ := mem_of_mapM has ha
    exact h j _ hj b
  | _ => cases has

theorem RoundTrips.lenient {c : Codec α} (h : c.RoundTrips) : c.lenient.RoundTrips := by
  intro j as has b
  cases j with
  | arr items =>
    show c.lenient.decode ((arr (as.map c.encode)).form b) = some as
    rw [form_arr]
    show some (((as.map c.encode).map (form b)).filterMap fun j => c.decode j.canonical) = some as
    rw [List.map_map, List.filterMap_map]
    refine congrArg some ?_
    refine (List.filterMap_congr (g := some) fun a ha => ?_).trans List.filterMap_some
    show c.decode ((c.encode a).form b).canonical = some a
    have hcanonical : ((c.encode a).form b).canonical = (c.encode a).form true := by
      cases b with
      | false => rfl
      | true => exact canonical_canonical (c.encode a)
    rw [hcanonical]
    obtain rfl := Option.some.inj has
    obtain ⟨item, -, hitem⟩ := List.mem_filterMap.mp ha
    exact h item.canonical a hitem true
  | _ => cases has

end Codec

namespace Member

variable {α : Type}

/-- What is read of a member is read again of what is written. -/
def RoundTrips (f : Member α) : Prop :=
  ∀ (o : Option Json) (a : α), f.decode o = some a →
    ∀ b, f.decode ((f.encode a).map (form b)) = some a

theorem required_roundTrips (name : Text) {c : Codec α} (h : c.RoundTrips) :
    (required name c).RoundTrips := by
  intro o a ha b
  obtain ⟨j, -, hj⟩ := Option.bind_eq_some_iff.mp ha
  exact h j _ hj b

/-- A default has to be read again as well, since it is written. -/
theorem defaulted_roundTrips (name : Text) {c : Codec α} (h : c.RoundTrips) {default : α}
    (hdefault : ∃ j, c.decode j = some default) : (defaulted name c default).RoundTrips := by
  intro o a ha b
  cases o with
  | none =>
    cases ha
    obtain ⟨j, hj⟩ := hdefault
    exact h j _ hj b
  | some j => exact h _ a ha b

/-- What is written of something is not nothing. -/
theorem optional_roundTrips (name : Text) {c : Codec α} (h : c.RoundTrips)
    (hnull : ∀ a b, (c.encode a).form b ≠ null) : (optional name c).RoundTrips := by
  intro o a ha b
  cases a with
  | none => rfl
  | some a =>
    have hread : ∃ j, c.decode j = some a := by
      dsimp only [optional] at ha
      split at ha
      · cases ha
      · cases ha
      · rename_i j _
        obtain ⟨a', ha', heq⟩ := Option.map_eq_some_iff.mp ha
        cases heq
        exact ⟨j, ha'⟩
    obtain ⟨j, hj⟩ := hread
    show (optional name c).decode (some ((c.encode a).form b)) = some (some a)
    dsimp only [optional]
    split
    · rename_i heq
      cases heq
    · rename_i heq
      exact absurd (Option.some.inj heq) (hnull a b)
    · rename_i j' _ heq
      rw [← Option.some.inj heq, h j a hj b]
      rfl

theorem skipped_roundTrips [DecidableEq α] (name : Text) {c : Codec α} (h : c.RoundTrips)
    {default : α} : (skipped name c default).RoundTrips := by
  intro o a ha b
  dsimp only [skipped] at ha ⊢
  by_cases hdefault : a = default
  · rw [if_pos hdefault, hdefault]
    rfl
  · rw [if_neg hdefault]
    cases o with
    | none => exact absurd (Option.some.inj ha).symm hdefault
    | some j => exact h _ a ha b

end Member

namespace Record

variable {α β : Type}

/-- What is read of an object's members is read again of those that are written, and none
is written twice. -/
def RoundTrips (r : Record α) : Prop :=
  ∀ (get : Text → Option Json) (a : α), r.decode get = some a →
    (∀ b, r.decode (fun k => (member k (r.encode a)).map (form b)) = some a) ∧
      Unrepeated (r.encode a)

theorem single_roundTrips {f : Member α} (h : f.RoundTrips) : (single f).RoundTrips := by
  intro get a ha
  refine ⟨fun b => ?_, fun k => ?_⟩
  · show f.decode ((member f.name (written f.name (f.encode a))).map (form b)) = some a
    rw [member_written, if_pos rfl]
    exact h _ a ha b
  · show ((written f.name (f.encode a)).filter _).length ≤ 1
    cases f.encode a with
    | none => exact Nat.zero_le 1
    | some j => exact List.length_filter_le _ [(f.name, j)]

theorem RoundTrips.append {r : Record α} {r' : Record β} (h : r.RoundTrips)
    (h' : r'.RoundTrips) (hdisjoint : ∀ k ∈ r.names, k ∉ r'.names) :
    (append r r' hdisjoint).RoundTrips := by
  rintro get ⟨x, y⟩ hxy
  obtain ⟨x', hx, hrest⟩ := Option.bind_eq_some_iff.mp hxy
  obtain ⟨y', hy, heq⟩ := Option.map_eq_some_iff.mp hrest
  cases heq
  obtain ⟨hread, honce⟩ := h get x hx
  obtain ⟨hread', honce'⟩ := h' get y hy
  refine ⟨fun b => ?_, fun k => ?_⟩
  · have hfirst : r.decode (fun k => (member k (r.encode x ++ r'.encode y)).map (form b)) =
        some x := by
      rw [← hread b]
      refine r.decode_congr fun k hk => ?_
      rw [member_append, r'.member_encode y k (hdisjoint k hk), Option.none_or]
    have hsecond : r'.decode (fun k => (member k (r.encode x ++ r'.encode y)).map (form b)) =
        some y := by
      rw [← hread' b]
      refine r'.decode_congr fun k hk => ?_
      rw [member_append, r.member_encode x k fun hk' => hdisjoint k hk' hk, Option.or_none]
    show ((r.decode fun k => (member k (r.encode x ++ r'.encode y)).map (form b)).bind fun a =>
      (r'.decode fun k => (member k (r.encode x ++ r'.encode y)).map (form b)).map (Prod.mk a)) =
        some (x, y)
    rw [hfirst, Option.bind_some, hsecond]
    rfl
  · show ((r.encode x ++ r'.encode y).filter _).length ≤ 1
    rw [List.filter_append]
    by_cases hk : k ∈ r.names
    · rw [filter_eq_nil (r'.member_encode y k (hdisjoint k hk)), List.append_nil]
      exact honce k
    · rw [filter_eq_nil (r.member_encode x k hk), List.nil_append]
      exact honce' k

theorem RoundTrips.cons {f : Member α} {r : Record β} (hf : f.RoundTrips) (hr : r.RoundTrips)
    {hnew : f.name ∉ r.names} : (cons f r hnew).RoundTrips :=
  (single_roundTrips hf).append hr _

theorem RoundTrips.iso {r : Record α} (h : r.RoundTrips) (e : α ≃ β) :
    (r.iso e).RoundTrips := by
  intro get y hy
  obtain ⟨a, ha, rfl⟩ := Option.map_eq_some_iff.mp hy
  obtain ⟨hread, honce⟩ := h get a ha
  show (∀ b, (r.decode (fun k => (member k (r.encode (e.symm (e a)))).map (form b))).map e =
    some (e a)) ∧ Unrepeated (r.encode (e.symm (e a)))
  rw [e.symm_apply_apply]
  exact ⟨fun b => by rw [hread b]; rfl, honce⟩

end Record

namespace Codec

variable {α : Type}

/-- **An object is read again** if its members are. -/
theorem object_roundTrips {r : Record α} (h : r.RoundTrips) : (object r).RoundTrips := by
  intro j a ha b
  obtain ⟨hread, honce⟩ := h _ a (decode_object ha)
  obtain ⟨fields', hform, honce', hmember⟩ := form_obj b honce
  show (object r).decode ((obj (r.encode a)).form b) = some a
  rw [hform]
  show (if unrepeated r.names fields' then r.decode (member · fields') else none) = some a
  rw [if_pos (unrepeated_of_unrepeated honce'), ← hread b]
  exact r.decode_congr fun k _ => hmember k

theorem object_ne_null (r : Record α) (a : α) (b : Bool) : ((object r).encode a).form b ≠ null := by
  show (obj (r.encode a)).form b ≠ null
  cases b with
  | false => nofun
  | true =>
    show (obj (r.encode a)).canonical ≠ null
    rw [canonical]
    nofun

/-- **A tagged object is read again** if its members are. -/
theorem tagged_roundTrips {ι : Type} {P : ι → Type} {tag : Text} {name : ι → Text}
    {ofName : Text → Option ι} {hname : ∀ s i, ofName s = some i → name i = s}
    {hof : ∀ i, ofName (name i) = some i} {r : ∀ i, Record (P i)}
    {htag : ∀ i, tag ∉ (r i).names} (h : ∀ i, (r i).RoundTrips) :
    (tagged tag name ofName hname hof r htag).RoundTrips := by
  rintro j ⟨i, a⟩ ha b
  -- a tagged value is read from an object with the tag among its members, or from an array whose
  -- first item is the tag
  have hfound : ∃ get, (r i).decode get = some a := by
    cases j with
    | obj fields =>
      dsimp only [tagged] at ha
      split at ha
      · obtain ⟨i', -, hrest⟩ := Option.bind_eq_some_iff.mp ha
        split at hrest
        · obtain ⟨a', ha', heq⟩ := Option.map_eq_some_iff.mp hrest
          cases heq
          exact ⟨_, ha'⟩
        · cases hrest
      · cases ha
    | arr items =>
      dsimp only [tagged] at ha
      split at ha
      · rename_i heq
        cases heq
      · obtain ⟨i', -, hrest⟩ := Option.bind_eq_some_iff.mp ha
        split at hrest
        · rename_i hseq
          cases hrest
          exact ⟨_, ((r i).decodeSeq_eq hseq).2⟩
        · cases hrest
      · cases ha
    | _ => cases ha
  obtain ⟨get, hget⟩ := hfound
  obtain ⟨hread, honce⟩ := h i get a hget
  -- the tag is not a field of the record, so the two name each member apart
  have htagged (k : Text) := member_tagged (r i) (htag i) (str (name i)) a k
  have honce' : Unrepeated ((tag, str (name i)) :: (r i).encode a) := by
    intro k
    rw [List.filter_cons]
    split
    · rename_i hk
      have hnone := (r i).member_encode a k (of_decide_eq_true hk ▸ htag i)
      rw [filter_eq_nil hnone]
      exact Nat.le_refl 1
    · exact honce k
  obtain ⟨fields', hform, hunrepeated, hmember⟩ := form_obj b honce'
  have htagmember : member tag fields' = some (str (name i)) := by
    rw [hmember, htagged, if_pos rfl, Option.map_some, form_str]
  show (tagged tag name ofName hname hof r htag).decode
    ((obj ((tag, str (name i)) :: (r i).encode a)).form b) = some ⟨i, a⟩
  rw [hform]
  dsimp only [tagged]
  rw [htagmember]
  dsimp only
  rw [hof i, Option.bind_some, if_pos (unrepeated_of_unrepeated hunrepeated),
    show (r i).decode (member · fields') = some a from ?_]
  · rfl
  · rw [← hread b]
    refine (r i).decode_congr fun k hk => ?_
    have hne : k ≠ tag := fun heq => htag i (heq ▸ hk)
    rw [hmember, htagged, if_neg hne]

end Codec

end Json
