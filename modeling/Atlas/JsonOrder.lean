import Mathlib.Data.List.Nodup
import Mathlib.Data.List.Perm.Basic
import Atlas.JsonRoundTrip

/-!
# Documents up to the order of members

The members of an object may be written in any order, at any depth (`Json.Reorders`).
In a document that has no name twice in one object this does not change the canonical
form; and what a codec reads of it does not depend on the order either, if the codec
reads the canonical form of a document as the document (`Json.Codec.OrderFree`). Each
combinator does if its parts do.
-/

open Text

namespace Json

/-! ## Names that are there once -/

mutual

/-- No object has a name twice, at any depth of the document. -/
def unique : Json → Bool
  | arr items => uniqueItems items
  | obj fields => decide (fields.map Prod.fst).Nodup && uniqueFields fields
  | null => true
  | bool _ => true
  | num _ => true
  | str _ => true

/-- No item has an object in it that has a key twice. -/
def uniqueItems : List Json → Bool
  | [] => true
  | j :: items => j.unique && uniqueItems items

/-- No value of a field has an object in it that has a key twice. -/
def uniqueFields : List (Text × Json) → Bool
  | [] => true
  | (_, j) :: fields => j.unique && uniqueFields fields

end

theorem unique_arr {items : List Json} :
    (arr items).unique = true ↔ ∀ j ∈ items, j.unique = true := by
  rw [unique]
  induction items with
  | nil => exact iff_of_true rfl (List.forall_mem_nil _)
  | cons j items ih => rw [uniqueItems, Bool.and_eq_true, ih, List.forall_mem_cons]

theorem unique_obj {fields : List (Text × Json)} :
    (obj fields).unique = true ↔
      (fields.map Prod.fst).Nodup ∧ ∀ f ∈ fields, f.2.unique = true := by
  rw [unique, Bool.and_eq_true, decide_eq_true_iff]
  refine and_congr Iff.rfl ?_
  induction fields with
  | nil => exact iff_of_true rfl (List.forall_mem_nil _)
  | cons f fields ih => rw [uniqueFields, Bool.and_eq_true, ih, List.forall_mem_cons]

section Fields

variable {β : Type} {fields fields' : List (Text × β)}

/-- **A name that is there once** leads to its member. -/
theorem member_eq_some_iff (h : (fields.map Prod.fst).Nodup) {k : Text} {v : β} :
    member k fields = some v ↔ (k, v) ∈ fields := by
  induction fields with
  | nil => exact iff_of_false (fun heq => nomatch heq) List.not_mem_nil
  | cons f fields ih =>
    obtain ⟨k', v'⟩ := f
    obtain ⟨hnew, hrest⟩ := List.nodup_cons.mp h
    rw [member, List.mem_cons, Prod.mk.injEq]
    by_cases hk : k = k'
    · have hnone : member k fields = none :=
        member_eq_none fun f hf heq => hnew (List.mem_map.mpr ⟨f, hf, heq.symm.trans hk⟩)
      rw [hnone, if_pos hk]
      show some v' = some v ↔ _
      constructor
      · intro heq
        exact Or.inl ⟨hk, (Option.some.inj heq).symm⟩
      · rintro (⟨-, rfl⟩ | hmem)
        · rfl
        · exact absurd (List.mem_map.mpr ⟨(k, v), hmem, hk⟩) hnew
    · rw [if_neg hk, Option.or_none, ih hrest]
      exact ⟨Or.inr, fun hor => hor.resolve_left fun heq => hk heq.1⟩

/-- The order of the members does not matter for what a name leads to. -/
theorem member_perm (h : (fields.map Prod.fst).Nodup) (hperm : fields.Perm fields') (k : Text) :
    member k fields' = member k fields := by
  ext v
  show member k fields' = some v ↔ member k fields = some v
  rw [member_eq_some_iff h, member_eq_some_iff ((hperm.map Prod.fst).nodup_iff.mp h),
    hperm.mem_iff]

end Fields

theorem unrepeated_of_nodup {names : List Text} {fields : List (Text × Json)}
    (h : (fields.map Prod.fst).Nodup) : unrepeated names fields = true := by
  refine unrepeated_of_unrepeated fun k => ?_
  have hcount := List.nodup_iff_count_le_one.mp h k
  rw [List.count_eq_countP, List.countP_map, List.countP_eq_length_filter] at hcount
  have hname : (fun f : Text × Json => decide (f.1 = k)) = (fun x => x == k) ∘ Prod.fst := by
    funext f
    rw [Bool.eq_iff_iff, decide_eq_true_iff]
    exact beq_iff_eq.symm
  rw [hname]
  exact hcount

/-! ## Other orders -/

/-- A document with the members of its objects in another order: at each step, those of
one object. -/
inductive Reorders : Json → Json → Prop
  | refl (j : Json) : Reorders j j
  | trans {j j' j'' : Json} : Reorders j j' → Reorders j' j'' → Reorders j j''
  | members {fields fields' : List (Text × Json)} :
    fields.Perm fields' → Reorders (obj fields) (obj fields')
  | item {j j' : Json} (before after : List Json) :
    Reorders j j' → Reorders (arr (before ++ j :: after)) (arr (before ++ j' :: after))
  | value {j j' : Json} (k : Text) (before after : List (Text × Json)) :
    Reorders j j' → Reorders (obj (before ++ (k, j) :: after)) (obj (before ++ (k, j') :: after))

/-- **The order of members does not change the canonical form.** -/
theorem Reorders.canonical_eq {j j' : Json} (h : Reorders j j') (hj : j.unique = true) :
    j'.unique = true ∧ j'.canonical = j.canonical := by
  induction h with
  | refl j => exact ⟨hj, rfl⟩
  | trans _ _ ih ih' =>
    obtain ⟨hunique, heq⟩ := ih hj
    obtain ⟨hunique', heq'⟩ := ih' hunique
    exact ⟨hunique', heq'.trans heq⟩
  | members hperm =>
    obtain ⟨hnodup, hall⟩ := unique_obj.mp hj
    refine ⟨unique_obj.mpr ⟨(hperm.map Prod.fst).nodup_iff.mp hnodup, fun f hf =>
      hall f (hperm.mem_iff.mpr hf)⟩, canonical_obj_inj.mpr fun k => ?_⟩
    rw [member_perm hnodup hperm]
  | item before after _ ih =>
    obtain ⟨hbefore, hafter⟩ := List.forall_mem_append.mp (unique_arr.mp hj)
    obtain ⟨hhead, htail⟩ := List.forall_mem_cons.mp hafter
    obtain ⟨hunique, heq⟩ := ih hhead
    refine ⟨unique_arr.mpr (List.forall_mem_append.mpr
      ⟨hbefore, List.forall_mem_cons.mpr ⟨hunique, htail⟩⟩), canonical_arr_inj.mpr ?_⟩
    rw [List.map_append, List.map_append, List.map_cons, List.map_cons, heq]
  | value k before after _ ih =>
    obtain ⟨hnodup, hall⟩ := unique_obj.mp hj
    obtain ⟨hbefore, hafter⟩ := List.forall_mem_append.mp hall
    obtain ⟨hhead, htail⟩ := List.forall_mem_cons.mp hafter
    obtain ⟨hunique, heq⟩ := ih hhead
    rw [List.map_append, List.map_cons] at hnodup
    refine ⟨unique_obj.mpr ⟨?_, List.forall_mem_append.mpr
      ⟨hbefore, List.forall_mem_cons.mpr ⟨hunique, htail⟩⟩⟩, canonical_obj_inj.mpr fun x => ?_⟩
    · rw [List.map_append, List.map_cons]
      exact hnodup
    · rw [Record.member_append, Record.member_append, member, member, Option.map_or,
        Option.map_or, Option.map_or, Option.map_or]
      by_cases hx : x = k
      · rw [if_pos hx, if_pos hx, Option.map_some, Option.map_some, heq]
      · rw [if_neg hx, if_neg hx]

/-- **Objects with the same members**, whatever their order and that of their values'
own, have the same canonical form. -/
theorem canonical_obj_of_mem {fields fields' : List (Text × Json)}
    (h : (fields.map Prod.fst).Nodup) (h' : (fields'.map Prod.fst).Nodup)
    (hmem : ∀ f, f ∈ fields.map (Prod.map id canonical) ↔
      f ∈ fields'.map (Prod.map id canonical)) :
    (obj fields).canonical = (obj fields').canonical := by
  have hmember : ∀ (l : List (Text × Json)) (k : Text),
      (member k l).map canonical = member k (l.map (Prod.map id canonical)) := by
    intro l k
    induction l with
    | nil => rfl
    | cons f l ih =>
      rw [List.map_cons, member, member, Option.map_or, ih]
      show _ = (member k (l.map _)).or (if k = f.1 then some f.2.canonical else none)
      split <;> rfl
  have hnames : ∀ l : List (Text × Json),
      (l.map (Prod.map id canonical)).map Prod.fst = l.map Prod.fst := by
    intro l
    rw [List.map_map]
    rfl
  have hperm := (List.perm_ext_iff_of_nodup (.of_map Prod.fst (hnames fields ▸ h))
    (.of_map Prod.fst (hnames fields' ▸ h'))).mpr hmem
  refine canonical_obj_inj.mpr fun k => ?_
  rw [hmember, hmember, member_perm (hnames fields ▸ h) hperm]

/-! ## Reading in any order -/

namespace Codec

variable {α β : Type}

/-- The canonical form of a document is read as the document: the order of the members of an
object carries no meaning for the codec. -/
def OrderFree (c : Codec α) : Prop :=
  ∀ j : Json, j.unique = true → c.decode j.canonical = c.decode j

/-- **What is read does not depend on the order of members.** -/
theorem OrderFree.decode_eq {c : Codec α} (h : c.OrderFree) {j j' : Json}
    (hj : j.unique = true) (horder : Reorders j j') : c.decode j' = c.decode j := by
  obtain ⟨hj', heq⟩ := horder.canonical_eq hj
  rw [← h j' hj', heq, h j hj]

theorem text_orderFree : text.OrderFree := by
  intro j _
  cases j <;> rw [canonical] <;> rfl

theorem unsigned_orderFree (bound : ℕ) : (unsigned bound).OrderFree := by
  intro j _
  cases j <;> rw [canonical] <;> rfl

theorem signed_orderFree (low high : ℤ) : (signed low high).OrderFree := by
  intro j _
  cases j <;> rw [canonical] <;> rfl

theorem OrderFree.list {c : Codec α} (h : c.OrderFree) : c.list.OrderFree := by
  intro j hj
  cases j with
  | arr items =>
    replace hj := unique_arr.mp hj
    rw [canonical, canonicalItems_eq]
    show (items.map canonical).mapM c.decode = items.mapM c.decode
    induction items with
    | nil => rfl
    | cons j items ih =>
      obtain ⟨hhead, htail⟩ := List.forall_mem_cons.mp hj
      rw [List.map_cons, List.mapM_cons, List.mapM_cons, h j hhead, ih htail]
  | obj fields =>
    rw [canonical]
    rfl
  | _ => rw [canonical]

end Codec

namespace Member

variable {α : Type}

/-- A member is read in its canonical form as it is, which holds of a member whose codec is
free of order, whether it is there or not. -/
def OrderFree (f : Member α) : Prop :=
  ∀ o : Option Json, (∀ j ∈ o, j.unique = true) → f.decode (o.map canonical) = f.decode o

theorem required_orderFree (name : Text) {c : Codec α} (h : c.OrderFree) :
    (required name c).OrderFree := by
  intro o ho
  cases o with
  | none => rfl
  | some j => exact h j (ho j rfl)

theorem defaulted_orderFree (name : Text) {c : Codec α} (h : c.OrderFree) (default : α) :
    (defaulted name c default).OrderFree := by
  intro o ho
  cases o with
  | none => rfl
  | some j => exact h j (ho j rfl)

end Member

namespace Record

variable {α β : Type}

/-- An object, or a list of its values, is read in its canonical form as it is. -/
structure OrderFree (r : Record α) : Prop where
  decode : ∀ get : Text → Option Json, (∀ k, ∀ j ∈ get k, j.unique = true) →
    r.decode (fun k => (get k).map canonical) = r.decode get
  decodeSeq : ∀ items : List Json, (∀ j ∈ items, j.unique = true) →
    r.decodeSeq (items.map canonical) =
      (r.decodeSeq items).map fun p => (p.1, p.2.map canonical)

theorem single_orderFree {f : Member α} (h : f.OrderFree) : (single f).OrderFree where
  decode get hget := h (get f.name) (hget f.name)
  decodeSeq items hitems := by
    cases items with
    | nil =>
      show (f.decode none).map (fun a => (a, [])) = ((f.decode none).map _).map _
      rw [Option.map_map]
      rfl
    | cons j items =>
      have hj : f.decode (some j.canonical) = f.decode (some j) :=
        h (some j) fun j' hj' => Option.some.inj hj' ▸ hitems j List.mem_cons_self
      show (f.decode (some j.canonical)).map (fun a => (a, items.map canonical)) =
        ((f.decode (some j)).map _).map _
      rw [hj, Option.map_map]
      rfl

theorem OrderFree.append {r : Record α} {r' : Record β} (h : r.OrderFree) (h' : r'.OrderFree)
    (hdisjoint : ∀ k ∈ r.names, k ∉ r'.names) : (append r r' hdisjoint).OrderFree where
  decode get hget := by
    show ((r.decode _).bind fun a => (r'.decode _).map (Prod.mk a)) = _
    rw [h.decode get hget, h'.decode get hget]
    rfl
  decodeSeq items hitems := by
    show ((r.decodeSeq (items.map canonical)).bind _) = ((r.decodeSeq items).bind _).map _
    rw [h.decodeSeq items hitems]
    cases hfirst : r.decodeSeq items with
    | none => rfl
    | some p =>
      obtain ⟨a, rest⟩ := p
      have hrest : ∀ j ∈ rest, j.unique = true := by
        obtain ⟨rfl, -⟩ := r.decodeSeq_eq hfirst
        exact fun j hj => hitems j (List.mem_of_mem_drop hj)
      show (r'.decodeSeq (rest.map canonical)).map _ = ((r'.decodeSeq rest).map _).map _
      rw [h'.decodeSeq rest hrest, Option.map_map, Option.map_map]
      rfl

theorem OrderFree.cons {f : Member α} {r : Record β} (hf : f.OrderFree) (hr : r.OrderFree)
    {hnew : f.name ∉ r.names} : (cons f r hnew).OrderFree :=
  (single_orderFree hf).append hr _

theorem OrderFree.iso {r : Record α} (h : r.OrderFree) (e : α ≃ β) : (r.iso e).OrderFree where
  decode get hget := congrArg (Option.map e) (h.decode get hget)
  decodeSeq items hitems := by
    show (r.decodeSeq (items.map canonical)).map _ = ((r.decodeSeq items).map _).map _
    rw [h.decodeSeq items hitems, Option.map_map, Option.map_map]
    rfl

end Record

theorem Codec.object_orderFree {α : Type} {r : Record α} (h : r.OrderFree) :
    (Codec.object r).OrderFree := by
  intro j hj
  cases j with
  | arr items =>
    rw [canonical, canonicalItems_eq]
    dsimp only [Codec.object]
    rw [h.decodeSeq items (unique_arr.mp hj)]
    cases r.decodeSeq items with
    | none => rfl
    | some p =>
      obtain ⟨a, rest⟩ := p
      cases rest <;> rfl
  | obj fields =>
    obtain ⟨hnodup, hall⟩ := unique_obj.mp hj
    rw [canonical]
    show (if unrepeated r.names (canonicalFields fields) then
        r.decode (member · (canonicalFields fields)) else none) =
      if unrepeated r.names fields then r.decode (member · fields) else none
    rw [unrepeated_of_unrepeated (sorted_canonicalFields fields).unrepeated,
      unrepeated_of_nodup hnodup, if_pos rfl, if_pos rfl]
    have hmembers : (member · (canonicalFields fields)) =
        fun k => (member k fields).map canonical := by
      funext k
      exact member_canonicalFields k fields
    rw [hmembers]
    exact h.decode _ fun k j hj => hall _ ((member_eq_some_iff hnodup).mp hj)
  | _ => rw [canonical]

end Json
