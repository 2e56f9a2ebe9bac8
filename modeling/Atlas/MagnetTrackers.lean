import Mathlib.Tactic.FinCases
import Mathlib.Tactic.Tauto
import Atlas.FormQuery

/-!
# Magnet links without their trackers

A magnet link from outside may name trackers to announce to and web seeds to fetch
from. `stripMagnetTrackers` takes these parameters out before the torrent library reads
the link. It recognises them in the text of the link, and the library reads the decoded
parameters of the link as a URL: a percent-encoded key is a tracker for the library and
not for `stripMagnetTrackers`, and what stands behind a `#` is a parameter for
`stripMagnetTrackers` and not for the library.

`TrackersStripped` says that the two agree on a link, and `stripMagnetTrackers_complete_iff`
for which links they do.
-/

namespace Atlas

open Text Delimited FormQuery

/-! ## The source -/

/-- The text of a key, as it is written, before any decoding: this is what the client
compares with `tr`. -/
def writtenKey (kv : Text) : Text := kv.takeWhile fun c => c ≠ '='

/-- Whether a piece of a magnet's query is a tracker, a web seed or another source. -/
def isTrackerPiece (kv : Text) : Bool :=
  let key := (writtenKey kv).toAsciiLowercase
  key = "tr".toList || "tr.".toList.isPrefixOf key || key = "ws".toList ||
    key = "as".toList || key = "xs".toList

/-- The pieces of a query that stay, those whose key is not an announce key as it is spelled. -/
def keptPieces (pieces : List Text) : List Text := pieces.filter fun kv => !isTrackerPiece kv

/-- A magnet link without announce parameters; the question mark goes with them when nothing
else is left. -/
def stripMagnetTrackers (magnet : Text) : Text :=
  match splitOnce ['?'] magnet with
  | none => magnet
  | some (base, query) =>
    let kept := keptPieces (split '&' query)
    if kept = [] then base else base ++ '?' :: List.intercalate ['&'] kept

/-! ## What the torrent library reads -/

/-- ASCII case folding of a byte, which leaves every byte outside `A` to `Z` as it is. -/
def lowerByte (b : UInt8) : UInt8 := if 0x41 ≤ b ∧ b ≤ 0x5A then b + 0x20 else b

/-- Whether a decoded key is `tr`, `tr.N`, `ws`, `as` or `xs`, in any letter case. -/
def namesTracker (key : Bytes) : Bool :=
  let key := key.map lowerByte
  key = utf8 "tr".toList || (utf8 "tr.".toList).isPrefixOf key || key = utf8 "ws".toList ||
    key = utf8 "as".toList || key = utf8 "xs".toList

/-- **Tracker stripping is complete** on a link: no parameter of the result names a
tracker, and the other parameters are there, with their values and in order. -/
def TrackersStripped (magnet : Text) : Prop :=
  (∀ param ∈ params (stripMagnetTrackers magnet), namesTracker param.1 = false) ∧
    params (stripMagnetTrackers magnet)
      = (params magnet).filter fun param => !namesTracker param.1

/-! ## The links on which the two agree -/

/-- Whether a piece is a tracker once it is decoded: its key names a tracker, with or
without a number after it, in any percent-encoding. -/
def announces (kv : Text) : Bool :=
  (paramOf (beforeFragment kv)).any fun param => namesTracker param.1

/-- The pieces of a query whose trackers are to be seen in its text: up to the fragment
each tracker has its key spelled out, and where the fragment begins in a piece that is
taken out, no parameter comes to stand in front of it. -/
def SpelledOut : List Text → Prop
  | [] => True
  | kv :: rest =>
    (announces kv = true → isTrackerPiece kv = true) ∧
      if '#' ∈ kv then
        isTrackerPiece kv = true → ∀ c ∈ (keptPieces rest).flatten.head?, c = '#'
      else SpelledOut rest

/-- A magnet link whose trackers are to be seen in its text, or that has no query. -/
def TrackersVisible (magnet : Text) : Prop :=
  match splitOnce ['?'] magnet with
  | none => True
  | some (base, query) => '#' ∈ base ∨ SpelledOut (split '&' query)

/-! ## Keys that are spelled out -/

/-- The bytes of an ASCII character fold as the character does. -/
theorem map_lowerByte_utf8 {c : Char} (h : c.toLower.toNat < 128) :
    (utf8 [c]).map lowerByte = utf8 [c.toLower] := by
  have hascii : ∀ c : Char, c.toNat < 128 → (utf8 [c]).map lowerByte = utf8 [c.toLower] :=
    forall_char_lt (by decide)
  exact hascii c (toNat_lt_of_toLower h)

/-- The characters of the tracker keys: ASCII, and nothing that decoding or the fragment
gives a meaning. -/
def Plain (d : Char) : Prop := d.toNat < 128 ∧ d ≠ '+' ∧ d ≠ '%' ∧ d ≠ '#'

instance : DecidablePred Plain := fun d =>
  inferInstanceAs (Decidable (d.toNat < 128 ∧ d ≠ '+' ∧ d ≠ '%' ∧ d ≠ '#'))

theorem plain_of_all {s : Text} (h : (s.all fun d => Plain d) = true) : ∀ d ∈ s, Plain d :=
  fun d hd => of_decide_eq_true (List.all_eq_true.mp h d hd)

/-- **A key that folds to a plain text decodes to it**, up to case, also where what
follows is cut off by a fragment. -/
theorem map_lowerByte_formDecode {word : Text} (hword : ∀ d ∈ word, Plain d) {raw rest : Text}
    (h : raw.toAsciiLowercase = word ++ rest) :
    ∃ tail : Text, tail.toAsciiLowercase = rest ∧
      (formDecode (beforeFragment raw)).map lowerByte
        = utf8 word ++ (formDecode (beforeFragment tail)).map lowerByte := by
  induction word generalizing raw with
  | nil => exact ⟨raw, h, rfl⟩
  | cons d word ih =>
    cases raw with
    | nil => cases h
    | cons c raw =>
      obtain ⟨rfl, htail⟩ := List.cons.inj h
      obtain ⟨hascii, hplus, hpercent, hhash⟩ := hword _ List.mem_cons_self
      obtain ⟨tail, hrest, hdecode⟩ := ih (fun e he => hword e (List.mem_cons_of_mem _ he)) htail
      have hne : ∀ e : Char, isAsciiAlphabetic e = false → c.toLower ≠ e → c ≠ e :=
        fun e he hlower hc => hlower ((toLower_eq_iff he).mpr hc)
      have hcut : beforeFragment (c :: raw) = c :: beforeFragment raw :=
        List.takeWhile_cons_of_pos (decide_eq_true (hne '#' (by decide) hhash))
      refine ⟨tail, hrest, ?_⟩
      rw [hcut, formDecode_cons (hne '+' (by decide) hplus) (hne '%' (by decide) hpercent),
        List.map_append, map_lowerByte_utf8 hascii, hdecode, ← List.append_assoc]
      exact congrArg (fun bytes => bytes ++ _) List.flatMap_append.symm

/-- A tracker's key folds to one of the names, or to what begins with `tr.`. -/
theorem isTrackerPiece_iff {kv : Text} : isTrackerPiece kv = true ↔
    (writtenKey kv).toAsciiLowercase ∈ ["tr".toList, "ws".toList, "as".toList, "xs".toList] ∨
      "tr.".toList <+: (writtenKey kv).toAsciiLowercase := by
  unfold isTrackerPiece
  simp only [Bool.or_eq_true, decide_eq_true_eq, List.isPrefixOf_iff_prefix, List.mem_cons,
    List.not_mem_nil, or_false]
  tauto

theorem namesTracker_of_eq {key : Bytes} {word : Text}
    (hword : word ∈ ["tr".toList, "ws".toList, "as".toList, "xs".toList])
    (h : key.map lowerByte = utf8 word) : namesTracker key = true := by
  unfold namesTracker
  rw [h]
  clear h
  fin_cases hword
  · rfl
  · rfl
  · rfl
  · rfl

theorem namesTracker_of_isPrefix {key : Bytes} (h : utf8 "tr.".toList <+: key.map lowerByte) :
    namesTracker key = true := by
  unfold namesTracker
  simp only [List.isPrefixOf_iff_prefix.mpr h, Bool.or_true, Bool.true_or]

/-- **What the text shows as a tracker is one**, whatever is cut off of it. -/
theorem paramOf_tracker {kv : Text} (h : isTrackerPiece kv = true) :
    ∃ param : Param, paramOf (beforeFragment kv) = [param] ∧ namesTracker param.1 = true := by
  have hkey : writtenKey (beforeFragment kv) = beforeFragment (writtenKey kv) := by
    unfold writtenKey beforeFragment
    rw [List.takeWhile_takeWhile, List.takeWhile_takeWhile]
    refine congrArg (fun p => List.takeWhile p kv) (funext fun c => ?_)
    exact decide_eq_decide.mpr and_comm
  have hne : (formDecode (beforeFragment (writtenKey kv))).map lowerByte ≠ [] →
      beforeFragment kv ≠ [] := by
    intro hmap hnil
    rw [hnil] at hkey
    rw [← hkey] at hmap
    exact hmap rfl
  suffices hnames : (formDecode (beforeFragment (writtenKey kv))).map lowerByte
      ≠ [] ∧ namesTracker (formDecode (beforeFragment (writtenKey kv))) = true by
    refine ⟨_, paramOf_of_ne (hne hnames.1), ?_⟩
    show namesTracker (formDecode (writtenKey (beforeFragment kv))) = true
    rw [hkey]
    exact hnames.2
  obtain hword | ⟨rest, hrest⟩ := isTrackerPiece_iff.mp h
  · have hplain : ∀ word ∈ ["tr".toList, "ws".toList, "as".toList, "xs".toList],
        (word.all fun d => Plain d) = true ∧ utf8 word ≠ [] := by
      decide
    obtain ⟨tail, htail, hmap⟩ := map_lowerByte_formDecode (plain_of_all (hplain _ hword).1)
      (List.append_nil _).symm
    rw [toAsciiLowercase_eq_nil.mp htail] at hmap
    have hmap : _ = utf8 _ := hmap.trans (List.append_nil _)
    exact ⟨hmap ▸ (hplain _ hword).2, namesTracker_of_eq hword hmap⟩
  · have hplain : ∀ d ∈ "tr.".toList, Plain d := plain_of_all (by decide)
    obtain ⟨tail, -, hmap⟩ := map_lowerByte_formDecode hplain hrest.symm
    refine ⟨?_, namesTracker_of_isPrefix ⟨_, hmap.symm⟩⟩
    rw [hmap]
    exact List.cons_ne_nil _ _

/-! ## The parameters that are left -/

/-- There is no parameter before the fragment exactly if nothing but the fragment is there. -/
theorem paramsOf_eq_nil_iff (pieces : List Text) :
    paramsOf pieces = [] ↔ ∀ c ∈ pieces.flatten.head?, c = '#' := by
  induction pieces with
  | nil => exact iff_of_true rfl fun c hc => nomatch hc
  | cons kv rest ih =>
    cases kv with
    | nil => exact ih
    | cons c kv =>
      rw [paramsOf]
      by_cases hc : c = '#'
      · subst hc
        refine iff_of_true ?_ fun d hd => (Option.some.inj hd).symm
        rw [if_pos List.mem_cons_self]
        rfl
      · have hcut : beforeFragment (c :: kv) ≠ [] := by
          rw [show beforeFragment (c :: kv) = c :: beforeFragment kv from
            List.takeWhile_cons_of_pos (decide_eq_true hc)]
          exact List.cons_ne_nil _ _
        refine iff_of_false ?_ fun h => hc (h c rfl)
        rw [paramOf_of_ne hcut]
        exact List.cons_ne_nil _ _

/-- A piece that is no tracker once decoded loses none of its parameters. -/
theorem filter_paramOf {kv : Text} (h : ¬ announces kv = true) :
    (paramOf (beforeFragment kv)).filter (fun param => !namesTracker param.1)
      = paramOf (beforeFragment kv) := by
  refine List.filter_eq_self.mpr fun param hparam => ?_
  rw [Bool.not_eq_true', ← Bool.not_eq_true]
  exact fun hnames => h (List.any_eq_true.mpr ⟨param, hparam, hnames⟩)

/-- **The pieces that are kept have the parameters that are no trackers** exactly if the
trackers are spelled out. -/
theorem paramsOf_keptPieces_iff (pieces : List Text) :
    paramsOf (keptPieces pieces)
        = (paramsOf pieces).filter (fun param => !namesTracker param.1) ↔
      SpelledOut pieces := by
  induction pieces with
  | nil => exact iff_of_true rfl trivial
  | cons kv rest ih =>
    rw [SpelledOut, paramsOf, List.filter_append]
    by_cases htracker : isTrackerPiece kv = true
    · have hkept : keptPieces (kv :: rest) = keptPieces rest :=
        List.filter_cons_of_neg (by rw [htracker]; exact Bool.false_ne_true)
      obtain ⟨param, hparam, hnames⟩ := paramOf_tracker htracker
      have hgone : [param].filter (fun param => !namesTracker param.1) = [] :=
        List.filter_cons_of_neg (by rw [hnames]; exact Bool.false_ne_true)
      rw [hkept, hparam, hgone, List.nil_append, and_iff_right fun _ => htracker]
      split
      · rw [forall_prop_of_true htracker]
        exact paramsOf_eq_nil_iff (keptPieces rest)
      · exact ih
    · have hkept : keptPieces (kv :: rest) = kv :: keptPieces rest :=
        List.filter_cons_of_pos (by rw [Bool.eq_false_iff.mpr htracker]; rfl)
      rw [hkept, paramsOf]
      by_cases hannounces : announces kv = true
      · -- the tracker is among the parameters that are left
        refine iff_of_false (fun h => ?_) fun h => htracker (h.1 hannounces)
        obtain ⟨param, hparam, hnames⟩ := List.any_eq_true.mp hannounces
        have hleft := List.mem_append_left
          (if '#' ∈ kv then [] else paramsOf (keptPieces rest)) hparam
        rw [h, ← List.filter_append] at hleft
        have hnot := (List.mem_filter.mp hleft).2
        rw [hnames] at hnot
        exact absurd hnot Bool.false_ne_true
      · rw [filter_paramOf hannounces, List.append_cancel_left_eq,
          and_iff_right fun h => absurd h hannounces]
        split
        · exact iff_of_true rfl fun h => absurd h htracker
        · exact ih

/-- **The parameters of the result** are those of the kept pieces. -/
theorem params_stripMagnetTrackers {base : Text} (hquestion : '?' ∉ base) (hhash : '#' ∉ base)
    (query : Text) : params (stripMagnetTrackers (base ++ '?' :: query))
      = paramsOf (keptPieces (split '&' query)) := by
  unfold stripMagnetTrackers
  rw [show base ++ '?' :: query = base ++ (['?'] ++ query) from rfl, splitOnce_append hquestion]
  show params (if keptPieces (split '&' query) = [] then base else _) = _
  split
  · rename_i hnil
    rw [hnil]
    exact params_of_notMem fun h => hquestion (mem_of_mem_beforeFragment h)
  · rename_i hne
    exact params_join hquestion hhash hne fun p hp =>
      notMem_of_mem_split (List.mem_of_mem_filter hp)

/-- **Tracker stripping is complete exactly where the trackers are visible in the text.** -/
theorem stripMagnetTrackers_complete_iff (magnet : Text) :
    TrackersStripped magnet ↔ TrackersVisible magnet := by
  have hsecond : TrackersStripped magnet ↔ params (stripMagnetTrackers magnet)
      = (params magnet).filter fun param => !namesTracker param.1 := by
    refine ⟨fun h => h.2, fun h => ⟨fun param hparam => ?_, h⟩⟩
    rw [h] at hparam
    have hnot := (List.mem_filter.mp hparam).2
    exact Bool.eq_false_iff.mpr fun hnames => by
      rw [hnames] at hnot
      exact Bool.false_ne_true hnot
  rw [hsecond]
  unfold TrackersVisible
  -- a magnet without a query has no parameters to strip, and one whose `#` comes before the `?` has
  -- none either
  by_cases hmem : '?' ∈ magnet
  · obtain ⟨base, query, rfl, hquestion⟩ := List.eq_append_cons_of_mem hmem
    have hsplit : splitOnce ['?'] (base ++ '?' :: query) = some (base, query) :=
      splitOnce_append hquestion query
    rw [hsplit]
    show _ ↔ '#' ∈ base ∨ SpelledOut (split '&' query)
    by_cases hhash : '#' ∈ base
    · refine iff_of_true ?_ (Or.inl hhash)
      rw [params_of_fragment hquestion hhash]
      unfold stripMagnetTrackers
      rw [hsplit]
      show params (if keptPieces (split '&' query) = [] then base else _) = _
      split
      · have hbase := params_of_fragment hquestion hhash []
        rwa [List.append_nil] at hbase
      · exact params_of_fragment hquestion hhash _
    · have hpieces : params (base ++ '?' :: query) = paramsOf (split '&' query) := by
        have hjoin := params_join hquestion hhash (split_ne_nil query)
          fun p hp => notMem_of_mem_split hp
        rwa [intercalate_split] at hjoin
      rw [params_stripMagnetTrackers hquestion hhash, hpieces, or_iff_right hhash]
      exact paramsOf_keptPieces_iff (split '&' query)
  · rw [splitOnce_eq_none hmem]
    refine iff_of_true ?_ trivial
    unfold stripMagnetTrackers
    rw [splitOnce_eq_none hmem]
    show params magnet = _
    rw [params_of_notMem fun h => hmem (mem_of_mem_beforeFragment h)]
    rfl

/-- A magnet link whose announce parameter has its first letter percent-encoded, so that the
client keeps the piece, and whoever decodes it finds a tracker there. -/
def encodedTracker : Text :=
  "magnet:?xt=urn:btih:0123456789abcdef0123456789abcdef01234567&%74r=http://evil/announce".toList

/-- **A percent-encoded tracker passes**: the torrent library reads it in the result. -/
theorem encodedTracker_passes :
    "magnet:".toList <+: encodedTracker ∧
      (utf8 "tr".toList, utf8 "http://evil/announce".toList) ∈
        params (stripMagnetTrackers encodedTracker) ∧
      ¬ TrackersStripped encodedTracker := by
  have hmem : (utf8 "tr".toList, utf8 "http://evil/announce".toList) ∈
      params (stripMagnetTrackers encodedTracker) := by
    decide
  refine ⟨⟨_, rfl⟩, hmem, fun h => ?_⟩
  exact absurd (h.1 _ hmem) (by decide)

end Atlas
