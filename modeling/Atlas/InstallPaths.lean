import Atlas.Installs
import Atlas.LexicalPath
import Atlas.Manifest

/-!
# Where an artifact is installed

The destination of an artifact is the install root joined with the artifact's path, which
`validateArtifactPath` has accepted. It should lie strictly below the root, read lexically
under the rules of Unix and of Windows.

Under Unix `/` separates. Under Windows `\` does so too, and a path may begin with a drive
or with `\\server\share`; what begins with `\\?\` or `\\.\` has the shape of the latter and
is read like it. The join on Windows is a separator between two texts, except behind a bare
drive; a verbatim root, which begins with `\\?\`, is taken apart and written anew.

The destination is below the root unless the path has only components that mean nothing, or
the root is the beginning of `\\server\share` that the path completes
(`installed_below_iff`).
-/

namespace Atlas

open Text LexicalPath

/-! ## Unix -/

/-- Whether a character separates the components of a path on Unix; this is the only
separator that the rules for Unix know. -/
def isSlash (c : Char) : Bool := c = '/'

/-- A path read under the rules of Unix: absolute or not, and its names. -/
def unixPath (s : Text) : LexicalPath.Path Bool :=
  let rooted := s.head?.any isSlash
  ⟨rooted, names isSlash rooted s⟩

/-! ## Windows -/

/-- Whether a character is the other separator that Windows has, besides the slash; on Unix
it is an ordinary character of a name. -/
def isBackslash (c : Char) : Bool := c = '\\'

/-- Whether a character separates the components of a path on Windows, where both kinds of
slashes do, also next to each other in one path. -/
def isWinSep (c : Char) : Bool := isSlash c || isBackslash c

/-- How a path may begin under Windows' rules: with a drive, or with a server and a share. -/
inductive WinPrefix where
  | drive (letter : Char)
  | unc (server share : Text)
  deriving DecidableEq, Repr

/-- The component a text begins with, and what is after its separator. -/
def nextComponent (isSep : Char → Bool) (s : Text) : Text × Text :=
  (s.takeWhile fun c => !isSep c, (s.dropWhile fun c => !isSep c).drop 1)

/-- What a path begins with, and the rest of it: a drive, or a server and a share, of which
both must be there; otherwise there is no prefix. -/
def winPrefix (s : Text) : Option WinPrefix × Text :=
  match s with
  | a :: b :: r =>
    if isWinSep a && isWinSep b then
      let (server, path) := nextComponent isWinSep r
      let share := path.takeWhile fun c => !isWinSep c
      if server = [] ∨ share = [] then (none, s)
      else (some (.unc server share), path.dropWhile fun c => !isWinSep c)
    else if b = ':' && isAsciiAlphabetic a then (some (.drive a), r)
    else (none, s)
  | _ => (none, s)

/-- Whether a path goes on from a root behind what it begins with. Behind a share there is
always a root. -/
def isRooted (start : Option WinPrefix) (rest : Text) : Bool :=
  match start with
  | some (.unc _ _) => true
  | _ => rest.head?.any isWinSep

/-- A path read under the rules of Windows: what it begins with, whether it goes on from a
root, and its names. -/
def winPath (s : Text) : LexicalPath.Path (Option WinPrefix × Bool) :=
  let (start, rest) := winPrefix s
  ⟨(start, isRooted start rest), names isWinSep (isRooted start rest) rest⟩

/-- A path in which only `\` separates, because it begins with the verbatim prefix. -/
def isVerbatim (root : Text) : Bool := "\\\\?\\".toList.isPrefixOf root

/-- The prefix of a verbatim path: of a share, of a drive, or just of one component. -/
def verbatimPrefix (root : Text) : Text :=
  let rest := root.drop 4
  if (["UNC\\", "UNC/"].map String.toList).contains (rest.take 4) then
    let (server, path) := nextComponent isBackslash (rest.drop 4)
    let share := (nextComponent isBackslash path).1
    root.take (8 + server.length + if share = [] then 0 else 1 + share.length)
  else if (rest.head?.any isAsciiAlphabetic && rest[1]? = some ':') &&
      (rest[2]?.all isWinSep) then
    root.take 6
  else root.take (4 + (nextComponent isBackslash rest).1.length)

/-- Join a verbatim root with a relative path: the components of both, written anew. -/
def verbatimJoin (root path : Text) : Text :=
  let start := verbatimPrefix root
  let rest := root.drop start.length
  let comps := (pieces isBackslash (rest.drop 1)).filter (· ≠ []) ++
    (pieces isWinSep path).filter meaningful
  start ++ ((if rest ≠ [] ∨ comps ≠ [] then "\\".toList else []) ++
    List.intercalate "\\".toList comps)

/-- A drive and nothing else, so that a path joined to it is relative to that drive's directory. -/
def isBareDrive (root : Text) : Bool :=
  root.length = 2 && (root.head?.any isAsciiAlphabetic && root[1]? = some ':')

/-- Join a root with a relative path that begins neither with a separator nor with a drive. -/
def winJoin (root path : Text) : Text :=
  if isVerbatim root then verbatimJoin root path
  else if root = [] ∨ root.getLast?.any isWinSep ∨ isBareDrive root then root ++ path
  else root ++ '\\' :: path

/-! ## Paths that are accepted -/

/-- What is asked of an artifact's path before it is installed: relative, without a drive,
and without a step upwards. -/
structure AcceptedPath (path : Text) : Prop where
  nonempty : path ≠ []
  relative : ∀ c ∈ path.head?, isWinSep c = false
  noDrive : ¬ (path[1]? = some ':' ∧ path.head?.any isAsciiAlphabetic = true)
  noParent : "..".toList ∉ pieces isWinSep path

theorem accepted_of_validate {path : Text} (h : validateArtifactPath path = .ok ()) :
    AcceptedPath path := by
  unfold validateArtifactPath at h
  split at h
  · cases h
  rename_i hempty
  split at h
  · cases h
  split at h
  · cases h
  rename_i habsolute
  split at h
  · cases h
  rename_i hdrive
  split at h
  · cases h
  rename_i hparent
  have hne : path ≠ [] := fun heq => hempty (heq ▸ rfl)
  obtain ⟨c, rest, rfl⟩ := List.exists_cons_of_ne_nil hne
  refine ⟨hne, ?_, ?_, ?_⟩
  · intro d hd
    cases hd
    rw [Bool.or_eq_true, not_or, decide_eq_true_iff, decide_eq_true_iff] at habsolute
    obtain ⟨hslash, hback⟩ := habsolute
    unfold isWinSep isSlash isBackslash
    rw [decide_eq_false fun heq => hslash (congrArg some heq),
      decide_eq_false fun heq => hback (congrArg some heq)]
    rfl
  · rintro ⟨hcolon, hletter⟩
    refine hdrive (Bool.and_eq_true_iff.mpr ⟨decide_eq_true hcolon, ?_⟩)
    exact hletter
  · intro hmem
    exact hparent (List.contains_iff_mem.mpr hmem)

/-- A component of a path that is accepted is not `..`, under the rules of Unix either. -/
theorem AcceptedPath.noParent_unix {path : Text} (h : AcceptedPath path) :
    "..".toList ∉ pieces isSlash path := by
  intro hmem
  refine h.noParent ?_
  rw [show pieces isWinSep path = _ from pieces_or isSlash isBackslash path]
  refine List.mem_flatMap.mpr ⟨_, hmem, ?_⟩
  rw [pieces_of_forall (forall_mem_of_all (by decide))]
  exact List.mem_cons_self

/-- Some component of a path means something, being neither empty nor a dot. -/
def HasName (path : Text) : Prop := ∃ piece ∈ pieces isWinSep path, meaningful piece = true

instance (path : Text) : Decidable (HasName path) := by
  unfold HasName
  infer_instance

/-- A component that means something does so under the rules of Unix too. -/
theorem HasName.unix {path : Text} (h : HasName path) :
    ∃ piece ∈ pieces isSlash path, meaningful piece = true := by
  obtain ⟨piece, hpiece, hmeaning⟩ := h
  rw [show pieces isWinSep path = _ from pieces_or isSlash isBackslash path] at hpiece
  obtain ⟨whole, hwhole, hpart⟩ := List.mem_flatMap.mp hpiece
  refine ⟨whole, hwhole, ?_⟩
  by_contra hnot
  -- a component that means nothing has no part with a meaning
  have hcases : whole = [] ∨ whole = ".".toList := by
    unfold meaningful at hnot
    rw [Bool.and_eq_true, not_and_or, decide_eq_true_iff, decide_eq_true_iff, not_not,
      not_not] at hnot
    exact hnot
  have hsame : pieces isBackslash whole = [whole] := by
    obtain rfl | rfl := hcases
    · rfl
    · exact pieces_of_forall (forall_mem_of_all (by decide))
  rw [hsame, List.mem_singleton] at hpart
  rw [hpart] at hmeaning
  exact hnot hmeaning

/-! ## Below the root on Unix -/

/-- **On Unix the destination is below the root** exactly if a component of the path means
something there. -/
theorem unix_below_iff {path : Text} (h : AcceptedPath path) (root : Text) :
    (unixPath (joinDest root path)).StrictlyBelow (unixPath root) ↔
      ∃ piece ∈ pieces isSlash path, meaningful piece = true := by
  have hhead : path.head?.any isSlash = false := by
    cases hpath : path.head? with
    | none => rfl
    | some c =>
      have hc := h.relative c hpath
      unfold isWinSep at hc
      exact (Bool.or_eq_false_iff.mp hc).1
  have hrooted : (joinDest root path).head?.any isSlash = root.head?.any isSlash := by
    unfold joinDest
    cases root with
    | nil => exact hhead
    | cons c root =>
      split
      · rfl
      · rfl
  refine strictlyBelow_iff h.noParent_unix hrooted ?_
  show names isSlash ((joinDest root path).head?.any isSlash) (joinDest root path) = _
  rw [hrooted]
  unfold joinDest
  split
  · rename_i hends
    refine names_append_of_ends (hends.imp_right fun hlast => ⟨'/', hlast, rfl⟩)
      h.noParent_unix
  · rw [List.append_assoc]
    exact names_append_sep rfl root h.noParent_unix

/-! ## The beginning of a joined path -/

/-- A text is empty or begins with a separator, so that appending it to a path component
does not make that component longer. -/
def StartsSep (s : Text) : Prop := ∀ c ∈ s.head?, isWinSep c = true

/-- A text has no separator of either kind, and so is one component. -/
def NoSep (s : Text) : Prop := ∀ c ∈ s, isWinSep c = false

/-- A text is a component and what is behind it. -/
theorem exists_span (s : Text) : ∃ first rest, s = first ++ rest ∧ NoSep first ∧
    StartsSep rest := by
  refine ⟨s.takeWhile fun c => !isWinSep c, s.dropWhile fun c => !isWinSep c,
    List.takeWhile_append_dropWhile.symm, fun c hc => ?_, fun c hc => ?_⟩
  · have hnot := List.mem_takeWhile_imp hc
    rwa [Bool.not_eq_true'] at hnot
  · have hnot := List.head?_dropWhile_not (fun c => !isWinSep c) s
    rw [show (s.dropWhile fun c => !isWinSep c).head? = some c from hc] at hnot
    exact (Bool.not_eq_false' _).mp hnot

theorem takeWhile_span {first rest : Text} (hfirst : NoSep first) (hrest : StartsSep rest) :
    (first ++ rest).takeWhile (fun c => !isWinSep c) = first := by
  rw [List.takeWhile_append_of_pos fun c hc => by rw [hfirst c hc]; rfl]
  cases rest with
  | nil => exact List.append_nil first
  | cons c rest =>
    rw [List.takeWhile_cons_of_neg (by rw [hrest c rfl]; decide), List.append_nil]

theorem dropWhile_span {first rest : Text} (hfirst : NoSep first) (hrest : StartsSep rest) :
    (first ++ rest).dropWhile (fun c => !isWinSep c) = rest := by
  rw [List.dropWhile_append_of_pos fun c hc => by rw [hfirst c hc]; rfl]
  cases rest with
  | nil => rfl
  | cons c rest => rw [List.dropWhile_cons_of_neg (by rw [hrest c rfl]; decide)]

section Start

variable {a b sep : Char} {server share rest : Text}

/-- What is behind two separators. -/
theorem winPrefix_seps (ha : isWinSep a = true) (hb : isWinSep b = true) :
    winPrefix (a :: b :: rest) =
      if (nextComponent isWinSep rest).1 = [] ∨
          (nextComponent isWinSep rest).2.takeWhile (fun c => !isWinSep c) = [] then
        (none, a :: b :: rest)
      else (some (.unc (nextComponent isWinSep rest).1
          ((nextComponent isWinSep rest).2.takeWhile fun c => !isWinSep c)),
        (nextComponent isWinSep rest).2.dropWhile fun c => !isWinSep c) := by
  rw [winPrefix, ha, hb]
  rfl

/-- Two separators, a server, and a separator: a share follows, or it does not. -/
theorem winPrefix_share (ha : isWinSep a = true) (hb : isWinSep b = true)
    (hserver : NoSep server) (hsep : isWinSep sep = true) (hshare : NoSep share)
    (hrest : StartsSep rest) :
    winPrefix (a :: b :: (server ++ sep :: (share ++ rest))) =
      if server = [] ∨ share = [] then (none, a :: b :: (server ++ sep :: (share ++ rest)))
      else (some (.unc server share), rest) := by
  have hstarts : StartsSep (sep :: (share ++ rest)) := fun c hc => by
    cases hc
    exact hsep
  rw [winPrefix_seps ha hb, show nextComponent isWinSep (server ++ sep :: (share ++ rest)) =
    (server, share ++ rest) from ?_]
  · rw [takeWhile_span hshare hrest, dropWhile_span hshare hrest]
  · unfold nextComponent
    rw [takeWhile_span hserver hstarts, dropWhile_span hserver hstarts]
    rfl

/-- Two separators and a server: there is no share. -/
theorem winPrefix_server (ha : isWinSep a = true) (hb : isWinSep b = true)
    (hserver : NoSep server) : winPrefix (a :: b :: server) = (none, a :: b :: server) := by
  have hnil : StartsSep [] := fun c hc => nomatch hc
  rw [winPrefix_seps ha hb]
  unfold nextComponent
  have htake := takeWhile_span hserver hnil
  have hdrop := dropWhile_span hserver hnil
  rw [List.append_nil] at htake hdrop
  rw [htake, hdrop]
  exact if_pos (Or.inr rfl)

/-- A path that begins with a drive. -/
theorem winPrefix_drive (h : (isWinSep a && isWinSep b) = false)
    (hdrive : (decide (b = ':') && isAsciiAlphabetic a) = true) :
    winPrefix (a :: b :: rest) = (some (.drive a), rest) := by
  rw [winPrefix, h, if_neg Bool.false_ne_true, hdrive, if_pos rfl]

/-- A path that begins neither with two separators nor with a drive. -/
theorem winPrefix_none (h : (isWinSep a && isWinSep b) = false)
    (hdrive : (decide (b = ':') && isAsciiAlphabetic a) = false) :
    winPrefix (a :: b :: rest) = (none, a :: b :: rest) := by
  rw [winPrefix, h, if_neg Bool.false_ne_true, hdrive, if_neg Bool.false_ne_true]

end Start

theorem isAsciiAlphabetic_of_isWinSep {c : Char} (h : isWinSep c = true) :
    isAsciiAlphabetic c = false := by
  unfold isWinSep isSlash isBackslash at h
  obtain hc | hc := Bool.or_eq_true_iff.mp h
  · rw [of_decide_eq_true hc]
    decide
  · rw [of_decide_eq_true hc]
    decide

/-- A path that is accepted begins with no prefix. -/
theorem AcceptedPath.winPrefix_eq {path : Text} (h : AcceptedPath path) :
    winPrefix path = (none, path) := by
  match path, h with
  | [], _ => rfl
  | [_], _ => rfl
  | c :: d :: rest, h =>
    have hc : isWinSep c = false := h.relative c rfl
    refine winPrefix_none (by rw [hc]; rfl) ?_
    by_contra hdrive
    rw [Bool.not_eq_false, Bool.and_eq_true, decide_eq_true_iff] at hdrive
    exact h.noDrive ⟨congrArg some hdrive.1, hdrive.2⟩

/-- The first component of a path that is accepted is not empty. -/
theorem AcceptedPath.span {path : Text} (h : AcceptedPath path) :
    ∃ first rest, path = first ++ rest ∧ first ≠ [] ∧ NoSep first ∧ StartsSep rest := by
  obtain ⟨first, rest, rfl, hfirst, hrest⟩ := exists_span path
  refine ⟨first, rest, rfl, fun hnil => ?_, hfirst, hrest⟩
  rw [hnil, List.nil_append] at h
  obtain ⟨c, rest, rfl⟩ := List.exists_cons_of_ne_nil h.nonempty
  have hc := h.relative c rfl
  rw [hrest c rfl] at hc
  cases hc

/-- Joining makes a prefix of a root that only begins one: the root is two separators, of
which the path makes a server and a share, or two separators and a server, with at most one
separator behind it, for which the path begins with the share. -/
def CompletesUnc (root path : Text) : Prop :=
  isVerbatim root = false ∧ ∃ a b, isWinSep a = true ∧ isWinSep b = true ∧
    ((root = [a, b] ∧ ∃ second, (pieces isWinSep path)[1]? = some second ∧ second ≠ []) ∨
      ∃ server, server ≠ [] ∧ NoSep server ∧ (root = a :: b :: server ∨
        ∃ sep, isWinSep sep = true ∧ root = a :: b :: (server ++ [sep])))

/-- What joining puts behind the rest of a root: the path, behind a separator unless the
root ends in one or is a bare drive or empty. -/
def Adds (start : Option WinPrefix) (rest added path : Text) : Prop :=
  (added = '\\' :: path ∧ (rest = [] → ∃ server share, start = some (.unc server share))) ∨
    added = path ∧ (rest = [] ∨ ∃ c, rest.getLast? = some c ∧ isWinSep c = true)

/-- **A joined path begins like its root**, and goes on with the path. -/
def Joins (root path : Text) : Prop :=
  ∃ added, winPrefix (winJoin root path) = ((winPrefix root).1, (winPrefix root).2 ++ added) ∧
    Adds (winPrefix root).1 (winPrefix root).2 added path

/-- Joining behind a separator. -/
theorem winJoin_of_sep {root path : Text} (hverbatim : isVerbatim root = false)
    (h : root.getLast?.any isWinSep = true) : winJoin root path = root ++ path := by
  unfold winJoin
  rw [hverbatim, if_neg Bool.false_ne_true, if_pos (Or.inr (Or.inl h))]

/-- Joining where there is no separator. -/
theorem winJoin_of_not_sep {root path : Text} (hverbatim : isVerbatim root = false)
    (hne : root ≠ []) (h : root.getLast?.any isWinSep = false)
    (hdrive : isBareDrive root = false) : winJoin root path = root ++ '\\' :: path := by
  unfold winJoin
  rw [hverbatim, if_neg Bool.false_ne_true, if_neg]
  rintro (hnil | hlast | hbare)
  · exact hne hnil
  · rw [h] at hlast
    cases hlast
  · rw [hdrive] at hbare
    cases hbare

/-- The first component of a text. -/
theorem head_pieces {first rest : Text} (hfirst : NoSep first) (hrest : StartsSep rest) :
    ∃ others, pieces isWinSep (first ++ rest) = first :: others := by
  cases rest with
  | nil =>
    rw [List.append_nil]
    exact ⟨[], pieces_of_forall hfirst⟩
  | cons sep rest =>
    exact ⟨_, List.splitOnP_append_cons_of_forall_mem hfirst sep (hrest sep rfl) rest⟩

/-- The last character of a text that ends in a component. -/
theorem getLast?_noSep {s : Text} (hs : NoSep s) : s.getLast?.any isWinSep = false := by
  cases hlast : s.getLast? with
  | none => rfl
  | some c => exact hs c (List.mem_of_getLast? hlast)

theorem getLast?_append_ne {s t : Text} (ht : t ≠ []) : (s ++ t).getLast? = t.getLast? :=
  List.getLast?_append_of_ne_nil s ht

/-- What begins with a separator is no bare drive. -/
theorem isBareDrive_of_sep {a : Char} {r : Text} (ha : isWinSep a = true) :
    isBareDrive (a :: r) = false := by
  unfold isBareDrive
  rw [show (a :: r).head?.any isAsciiAlphabetic = false from isAsciiAlphabetic_of_isWinSep ha,
    Bool.false_and, Bool.and_false]

/-- A path joined to a text whose prefix is its own ends either behind a separator that
is there, or behind one that is added. -/
theorem joins_of_start {root path : Text} {start : Option WinPrefix} {rest : Text}
    (hverbatim : isVerbatim root = false) (hne : root ≠ [])
    (hdrive : isBareDrive root = false) (hroot : winPrefix root = (start, rest))
    (hlast : rest ≠ [] → rest.getLast? = root.getLast?)
    (hnil : rest = [] → root.getLast?.any isWinSep = false ∧
      ∃ server share, start = some (.unc server share))
    (hstart : ∀ added, (root.getLast?.any isWinSep = true ∧ added = path) ∨
      (root.getLast?.any isWinSep = false ∧ added = '\\' :: path) →
      winPrefix (root ++ added) = (start, rest ++ added)) : Joins root path := by
  unfold Joins
  rw [hroot]
  cases hsep : root.getLast?.any isWinSep with
  | true =>
    refine ⟨path, ?_, Or.inr ⟨rfl, Or.inr ?_⟩⟩
    · rw [winJoin_of_sep hverbatim hsep]
      exact hstart path (Or.inl ⟨hsep, rfl⟩)
    · have hrest : rest ≠ [] := fun h => by
        rw [(hnil h).1] at hsep
        cases hsep
      obtain ⟨c, hc, hcsep⟩ := (Option.any_eq_true _ _).mp hsep
      exact ⟨c, (hlast hrest).trans hc, hcsep⟩
  | false =>
    refine ⟨'\\' :: path, ?_, Or.inl ⟨rfl, fun h => (hnil h).2⟩⟩
    rw [winJoin_of_not_sep hverbatim hne hsep hdrive]
    exact hstart ('\\' :: path) (Or.inr ⟨hsep, rfl⟩)

theorem startsSep_append {s t : Text} (hs : s ≠ []) (h : StartsSep s) : StartsSep (s ++ t) := by
  obtain ⟨c, s, rfl⟩ := List.exists_cons_of_ne_nil hs
  exact h

/-- A root that begins with two separators. -/
theorem joins_of_seps {path : Text} (h : AcceptedPath path) {a b : Char} {r : Text}
    (ha : isWinSep a = true) (hb : isWinSep b = true)
    (hverbatim : isVerbatim (a :: b :: r) = false)
    (hnot : ¬ CompletesUnc (a :: b :: r) path) : Joins (a :: b :: r) path := by
  have hdrive : isBareDrive (a :: b :: r) = false := isBareDrive_of_sep ha
  obtain ⟨server, tail, rfl, hserver, htail⟩ := exists_span r
  cases tail with
  | nil =>
    rw [List.append_nil] at hverbatim hnot hdrive ⊢
    by_cases hnil : server = []
    · -- two separators, which the path does not make a prefix of
      subst hnil
      refine joins_of_start hverbatim (List.cons_ne_nil _ _) hdrive
        (winPrefix_server ha hb hserver) (fun _ => rfl) (fun h => by cases h) ?_
      rintro added (⟨-, rfl⟩ | ⟨hsep, -⟩)
      · obtain ⟨first, rest, rfl, hne, hfirst, hrest⟩ := h.span
        cases rest with
        | nil =>
          rw [List.append_nil]
          exact winPrefix_server ha hb hfirst
        | cons sep rest =>
          obtain ⟨share, u, rfl, hshare, hu⟩ := exists_span rest
          have hsep : isWinSep sep = true := hrest sep rfl
          have hpieces : pieces isWinSep (first ++ sep :: (share ++ u)) =
              first :: pieces isWinSep (share ++ u) :=
            List.splitOnP_append_cons_of_forall_mem hfirst sep hsep _
          obtain ⟨others, hothers⟩ := head_pieces hshare hu
          have hempty : share = [] := by
            by_contra hshare'
            refine hnot ⟨hverbatim, a, b, ha, hb, Or.inl ⟨rfl, share, ?_, hshare'⟩⟩
            rw [hpieces, hothers]
            rfl
          show winPrefix (a :: b :: (first ++ sep :: (share ++ u))) = _
          rw [winPrefix_share ha hb hfirst hsep hshare hu, if_pos (Or.inr hempty)]
          rfl
      · rw [show ([a, b] : Text).getLast?.any isWinSep = isWinSep b from rfl, hb] at hsep
        cases hsep
    · exact absurd ⟨hverbatim, a, b, ha, hb,
        Or.inr ⟨server, hnil, hserver, Or.inl rfl⟩⟩ hnot
  | cons sep t =>
    have hsep : isWinSep sep = true := htail sep rfl
    obtain ⟨share, u, rfl, hshare, hu⟩ := exists_span t
    have hroot := winPrefix_share ha hb hserver hsep hshare hu
    by_cases hnone : server = [] ∨ share = []
    · rw [if_pos hnone] at hroot
      refine joins_of_start hverbatim (List.cons_ne_nil _ _) hdrive hroot (fun _ => rfl)
        (fun h => by cases h) fun added hadded => ?_
      have hdest : StartsSep (u ++ added) ∨ server = [] := by
        by_cases hempty : server = []
        · exact Or.inr hempty
        · refine Or.inl (startsSep_append (fun hunil => ?_) hu)
          -- a root that ends behind the server would be completed
          refine hnot ⟨hverbatim, a, b, ha, hb, Or.inr ⟨server, hempty, hserver, Or.inr
            ⟨sep, hsep, ?_⟩⟩⟩
          rw [hnone.resolve_left hempty, hunil, List.append_nil]
      obtain hstarts | hempty := hdest
      · have hall := @winPrefix_share _ _ _ _ _ (u ++ added) ha hb hserver hsep hshare hstarts
        rw [if_pos hnone] at hall
        simpa using hall
      · -- three separators
        rw [hempty]
        obtain ⟨share', u', hsplit, hshare', hu'⟩ := exists_span (share ++ u ++ added)
        have hall := @winPrefix_share _ _ _ [] _ _ ha hb (fun _ hc => by cases hc) hsep
          hshare' hu'
        rw [if_pos (Or.inl rfl), ← hsplit] at hall
        simpa using hall
    · rw [if_neg hnone] at hroot
      obtain ⟨hserver', hshare'⟩ := not_or.mp hnone
      have hlast : u ≠ [] → u.getLast? =
          (a :: b :: (server ++ sep :: (share ++ u))).getLast? := by
        intro hne
        rw [show a :: b :: (server ++ sep :: (share ++ u)) =
          (a :: b :: (server ++ sep :: share)) ++ u by simp]
        exact (getLast?_append_ne hne).symm
      have hend : u = [] →
          (a :: b :: (server ++ sep :: (share ++ u))).getLast?.any isWinSep = false := by
        rintro rfl
        rw [show a :: b :: (server ++ sep :: (share ++ [])) =
          (a :: b :: (server ++ [sep])) ++ share by simp, getLast?_append_ne hshare']
        exact getLast?_noSep hshare
      refine joins_of_start hverbatim (List.cons_ne_nil _ _) hdrive hroot hlast
        (fun hunil => ⟨hend hunil, server, share, rfl⟩) fun added hadded => ?_
      have hstarts : StartsSep (u ++ added) := by
        by_cases hunil : u = []
        · obtain ⟨hsep', -⟩ | ⟨-, rfl⟩ := hadded
          · rw [hend hunil] at hsep'
            cases hsep'
          · rw [hunil]
            intro c hc
            cases hc
            rfl
        · exact startsSep_append hunil hu
      have hall := @winPrefix_share _ _ _ _ _ (u ++ added) ha hb hserver hsep hshare hstarts
      rw [if_neg hnone] at hall
      simpa using hall

/-- **A path is joined to what its root begins with**, unless joining makes a prefix of the
root. -/
theorem joins_of_not_completes {path : Text} (h : AcceptedPath path) {root : Text}
    (hverbatim : isVerbatim root = false) (hnot : ¬ CompletesUnc root path) :
    Joins root path := by
  match root, hverbatim, hnot with
  | [], _, _ => exact ⟨path, h.winPrefix_eq, Or.inr ⟨rfl, Or.inl rfl⟩⟩
  | [a], hverbatim, _ =>
    have hroot : winPrefix [a] = (none, [a]) := rfl
    have hdrive : isBareDrive [a] = false := rfl
    refine joins_of_start hverbatim (List.cons_ne_nil _ _) hdrive hroot (fun _ => rfl)
      (fun h => nomatch h) ?_
    rintro added (⟨hsep, rfl⟩ | ⟨hsep, rfl⟩)
    · obtain ⟨c, rest, rfl⟩ := List.exists_cons_of_ne_nil h.nonempty
      have ha : isWinSep a = true := hsep
      refine winPrefix_none ?_ ?_
      · rw [h.relative c rfl, Bool.and_false]
      · rw [isAsciiAlphabetic_of_isWinSep ha, Bool.and_false]
    · have ha : isWinSep a = false := hsep
      exact winPrefix_none (by rw [ha]; rfl) rfl
  | a :: b :: r, hverbatim, hnot =>
    cases hseps : isWinSep a && isWinSep b with
    | true =>
      obtain ⟨ha, hb⟩ := Bool.and_eq_true_iff.mp hseps
      exact joins_of_seps h ha hb hverbatim hnot
    | false =>
      cases hletter : decide (b = ':') && isAsciiAlphabetic a with
      | false =>
        have hdrive : isBareDrive (a :: b :: r) = false := by
          unfold isBareDrive
          rw [Bool.and_comm, show ((a :: b :: r).head?.any isAsciiAlphabetic &&
            decide ((a :: b :: r)[1]? = some ':')) =
              (decide (b = ':') && isAsciiAlphabetic a) by simp [Bool.and_comm], hletter]
          rfl
        exact joins_of_start hverbatim (List.cons_ne_nil _ _) hdrive
          (winPrefix_none hseps hletter) (fun _ => rfl) (fun h => nomatch h)
          fun added _ => winPrefix_none hseps hletter
      | true =>
        have hroot := @winPrefix_drive _ _ r hseps hletter
        cases r with
        | nil =>
          -- a bare drive: no separator is added
          refine ⟨path, ?_, Or.inr ⟨rfl, Or.inl (by rw [hroot])⟩⟩
          have hbare : isBareDrive [a, b] = true := by
            obtain ⟨hcolon, halpha⟩ := Bool.and_eq_true_iff.mp hletter
            rw [of_decide_eq_true hcolon]
            unfold isBareDrive
            rw [show ([a, ':'] : Text).head?.any isAsciiAlphabetic = true from halpha]
            rfl
          unfold winJoin
          rw [hverbatim, if_neg Bool.false_ne_true, if_pos (Or.inr (Or.inr hbare)), hroot]
          exact winPrefix_drive hseps hletter
        | cons c r =>
          have hdrive : isBareDrive (a :: b :: c :: r) = false := by
            unfold isBareDrive
            rw [decide_eq_false (by simp), Bool.false_and]
          exact joins_of_start hverbatim (List.cons_ne_nil _ _) hdrive hroot
            (fun _ => rfl) (fun h => nomatch h) fun added _ => winPrefix_drive hseps hletter

/-- **Joining that makes a prefix of the root** changes what the path begins with. -/
theorem prefix_ne_of_completes {path : Text} (h : AcceptedPath path) {root : Text}
    (hcompletes : CompletesUnc root path) :
    (winPrefix (winJoin root path)).1 ≠ (winPrefix root).1 := by
  obtain ⟨hverbatim, a, b, ha, hb, hcase⟩ := hcompletes
  obtain ⟨first, rest, hpath, hne, hfirst, hrest⟩ := h.span
  -- two ways a joined path grows a prefix: the root is two separators alone and the path brings
  -- server and share, or the root names the server and the path brings the share
  obtain ⟨rfl, second, hsecond, hne'⟩ | ⟨server, hserver', hserver, hroot⟩ := hcase
  · rw [winJoin_of_sep hverbatim (show ([a, b] : Text).getLast?.any isWinSep = true from hb),
      @winPrefix_server _ _ [] ha hb fun _ hc => by cases hc]
    rw [hpath] at hsecond ⊢
    cases rest with
    | nil =>
      rw [List.append_nil, pieces_of_forall hfirst] at hsecond
      cases hsecond
    | cons sep rest =>
      obtain ⟨share, u, rfl, hshare, hu⟩ := exists_span rest
      have hsep : isWinSep sep = true := hrest sep rfl
      obtain ⟨others, hothers⟩ := head_pieces hshare hu
      have hpieces : pieces isWinSep (first ++ sep :: (share ++ u)) =
          first :: pieces isWinSep (share ++ u) :=
        List.splitOnP_append_cons_of_forall_mem hfirst sep hsep _
      rw [hpieces, hothers] at hsecond
      obtain rfl : share = second := Option.some.inj hsecond
      show (winPrefix (a :: b :: (first ++ sep :: (share ++ u)))).1 ≠ none
      rw [winPrefix_share ha hb hfirst hsep hshare hu,
        if_neg (not_or.mpr ⟨hne, hne'⟩)]
      exact Option.some_ne_none _
  · have hshared : ∀ sep, isWinSep sep = true →
        (winPrefix (a :: b :: (server ++ sep :: path))).1 ≠ none := by
      intro sep hsep
      rw [hpath, winPrefix_share ha hb hserver hsep hfirst hrest,
        if_neg (not_or.mpr ⟨hserver', hne⟩)]
      exact Option.some_ne_none _
    obtain rfl | ⟨sep, hsep, rfl⟩ := hroot
    · rw [winPrefix_server ha hb hserver, winJoin_of_not_sep hverbatim
        (List.cons_ne_nil _ _) ?_ (isBareDrive_of_sep ha)]
      · exact hshared '\\' rfl
      · rw [show a :: b :: server = [a, b] ++ server from rfl, getLast?_append_ne hserver']
        exact getLast?_noSep hserver
    · have hlast : (a :: b :: (server ++ [sep])).getLast?.any isWinSep = true := by
        rw [show a :: b :: (server ++ [sep]) = (a :: b :: server) ++ [sep] from rfl,
          List.getLast?_append]
        exact hsep
      have hroot := @winPrefix_share _ _ _ _ [] [] ha hb hserver hsep
        (fun _ hc => by cases hc) fun _ hc => by cases hc
      rw [if_pos (Or.inr rfl)] at hroot
      rw [winJoin_of_sep hverbatim hlast, show winPrefix (a :: b :: (server ++ [sep])) = _
        from hroot]
      have hdest := hshared sep hsep
      simpa using hdest

/-- What a path begins with and goes on with, read as a path. -/
theorem winPath_of_joins {root path : Text} (h : AcceptedPath path) (hjoins : Joins root path) :
    (winPath (winJoin root path)).anchor = (winPath root).anchor ∧
      (winPath (winJoin root path)).names =
        (winPath root).names ++ (pieces isWinSep path).filter meaningful := by
  obtain ⟨added, hstart, hadds⟩ := hjoins
  unfold winPath
  rw [hstart]
  rcases hroot : winPrefix root with ⟨start, rest⟩
  rw [hroot] at hadds
  dsimp only at hadds ⊢
  have hrooted : isRooted start (rest ++ added) = isRooted start rest := by
    cases rest with
    | cons c rest => rfl
    | nil =>
      obtain ⟨-, hunc⟩ | ⟨rfl, -⟩ := hadds
      · obtain ⟨server, share, rfl⟩ := hunc rfl
        rfl
      · have hhead : added.head?.any isWinSep = false := by
          cases hc : added.head? with
          | none => rfl
          | some c => exact h.relative c hc
        unfold isRooted
        rw [List.nil_append, hhead]
        rfl
  rw [hrooted]
  refine ⟨rfl, ?_⟩
  obtain ⟨rfl, -⟩ | ⟨rfl, hends⟩ := hadds
  · exact names_append_sep rfl rest h.noParent
  · exact names_append_of_ends hends h.noParent

/-! ## Verbatim roots -/

/-- A text that begins a component behind a backslash. -/
theorem nextComponent_backslash (s : Text) :
    ∃ rest, s = (nextComponent isBackslash s).1 ++ rest ∧ StartsSep rest ∧
      (nextComponent isBackslash s).2 = rest.drop 1 := by
  refine ⟨s.dropWhile fun c => !isBackslash c, List.takeWhile_append_dropWhile.symm,
    fun c hc => ?_, rfl⟩
  have hnot := List.head?_dropWhile_not (fun c => !isBackslash c) s
  rw [show (s.dropWhile fun c => !isBackslash c).head? = some c from hc] at hnot
  unfold isWinSep
  rw [(Bool.not_eq_false' _).mp hnot, Bool.or_true]

theorem take_of_append {z q rest : Text} (h : z = q ++ rest) : z.take q.length = q := by
  rw [h, List.take_left]

/-- **The prefix of a verbatim path** is its beginning, up to a separator. -/
theorem verbatimPrefix_eq (z : Text) :
    ∃ q rest, z = q ++ rest ∧ StartsSep rest ∧
      verbatimPrefix ("\\\\?\\".toList ++ z) = "\\\\?\\".toList ++ q := by
  have htake : ∀ n, ("\\\\?\\".toList ++ z).take (4 + n) = "\\\\?\\".toList ++ z.take n :=
    fun n => @List.take_length_add_append _ "\\\\?\\".toList _ n
  unfold verbatimPrefix
  rw [show ("\\\\?\\".toList ++ z).drop 4 = z from rfl]
  dsimp only
  -- `UNC\\server\\share` first, then a drive letter, then any single component, as the standard
  -- library tries them
  split
  · obtain ⟨rest, hsplit, hrest, hnext⟩ := nextComponent_backslash (z.drop 4)
    obtain ⟨rest', hsplit', hrest', -⟩ := nextComponent_backslash (rest.drop 1)
    rw [hnext]
    generalize hserver : (nextComponent isBackslash (z.drop 4)).1 = server at hsplit
    generalize hshare : (nextComponent isBackslash (rest.drop 1)).1 = share at hsplit'
    rename_i hunc
    have hfour : (z.take 4).length = 4 := by
      obtain h | h := List.mem_cons.mp (List.contains_iff_mem.mp hunc)
      · rw [h]
        rfl
      · rw [List.mem_singleton.mp h]
        rfl
    have hz : z = z.take 4 ++ server ++ rest := by
      rw [List.append_assoc, ← hsplit, List.take_append_drop]
    -- without a share the prefix ends with the server
    by_cases hnil : share = []
    · refine ⟨z.take 4 ++ server, rest, hz, hrest, ?_⟩
      have hlength : 8 + server.length + 0 = 4 + (z.take 4 ++ server).length := by
        rw [List.length_append, hfour]
        omega
      rw [if_pos hnil, hlength, htake]
      exact congrArg _ (take_of_append hz)
    · obtain ⟨sep, t, rfl⟩ : ∃ sep t, rest = sep :: t := by
        cases rest with
        | nil =>
          exact absurd (List.append_eq_nil_iff.mp hsplit'.symm).1 hnil
        | cons sep t => exact ⟨sep, t, rfl⟩
      have ht : t = share ++ rest' := hsplit'
      have hz' : z = z.take 4 ++ server ++ sep :: share ++ rest' := by
        rw [List.append_assoc, List.cons_append, ← ht]
        exact hz
      refine ⟨z.take 4 ++ server ++ sep :: share, rest', hz', hrest', ?_⟩
      have hlength : 8 + server.length + (1 + share.length) =
          4 + (z.take 4 ++ server ++ sep :: share).length := by
        rw [List.length_append, List.length_append, hfour, List.length_cons]
        omega
      rw [if_neg hnil, hlength, htake]
      exact congrArg _ (take_of_append hz')
  · split
    · rename_i hdrive
      rw [Bool.and_eq_true, Bool.and_eq_true] at hdrive
      refine ⟨z.take 2, z.drop 2, (List.take_append_drop 2 z).symm, fun c hc => ?_, htake 2⟩
      have hall := hdrive.2
      rw [show z[2]? = some c by rw [← List.head?_drop]; exact hc] at hall
      exact hall
    · obtain ⟨rest, hsplit, hrest, -⟩ := nextComponent_backslash z
      refine ⟨(nextComponent isBackslash z).1, rest, hsplit, hrest, ?_⟩
      rw [htake]
      exact congrArg _ (take_of_append hsplit)

/-- How a verbatim path is read: what is in front of a separator decides where it starts. -/
theorem winPath_verbatim (q : Text) :
    ∃ anchor front, ∀ rest, StartsSep rest →
      winPath ("\\\\?\\".toList ++ (q ++ rest)) =
        ⟨anchor, names isWinSep true (front ++ rest)⟩ := by
  obtain ⟨share, q', rfl, hshare, hq'⟩ := exists_span q
  have hserver : NoSep ['?'] := forall_mem_of_all (by decide)
  have hstem : ∀ rest, StartsSep rest →
      winPrefix ("\\\\?\\".toList ++ (share ++ q' ++ rest)) =
        if ['?'] = ([] : Text) ∨ share = [] then
          (none, "\\\\?\\".toList ++ (share ++ q' ++ rest))
        else (some (.unc ['?'] share), q' ++ rest) := by
    intro rest hrest
    have hstarts : StartsSep (q' ++ rest) := by
      cases q' with
      | nil => exact hrest
      | cons c q' => exact hq'
    have hall := @winPrefix_share '\\' '\\' '\\' _ _ _ rfl rfl hserver rfl
      hshare hstarts
    rw [List.append_assoc]
    exact hall
  by_cases hnil : share = []
  · refine ⟨(none, true), "\\\\?\\".toList ++ (share ++ q'), fun rest hrest => ?_⟩
    unfold winPath
    rw [hstem rest hrest, if_pos (Or.inr hnil), List.append_assoc ("\\\\?\\".toList)]
    rfl
  · refine ⟨(some (.unc ['?'] share), true), q', fun rest hrest => ?_⟩
    unfold winPath
    rw [hstem rest hrest, if_neg (not_or.mpr ⟨List.cons_ne_nil _ _, hnil⟩)]
    rfl

/-- **A path is joined to a verbatim root** component by component. -/
theorem winPath_verbatimJoin {root path : Text} (h : AcceptedPath path)
    (hverbatim : isVerbatim root = true) :
    (winPath (winJoin root path)).anchor = (winPath root).anchor ∧
      (winPath (winJoin root path)).names =
        (winPath root).names ++ (pieces isWinSep path).filter meaningful := by
  obtain ⟨z, rfl⟩ : ∃ z, root = "\\\\?\\".toList ++ z :=
    (List.isPrefixOf_iff_prefix.mp hverbatim).imp fun _ => Eq.symm
  obtain ⟨q, rest, rfl, hrest, hstem⟩ := verbatimPrefix_eq z
  obtain ⟨anchor, front, hread⟩ := winPath_verbatim q
  have hjoin : winJoin ("\\\\?\\".toList ++ (q ++ rest)) path =
      verbatimJoin ("\\\\?\\".toList ++ (q ++ rest)) path := by
    unfold winJoin
    rw [hverbatim, if_pos rfl]
  unfold verbatimJoin at hjoin
  rw [hstem] at hjoin
  dsimp only at hjoin
  rw [show ("\\\\?\\".toList ++ (q ++ rest)).drop ("\\\\?\\".toList ++ q).length = rest by
    rw [← List.append_assoc, List.drop_left]] at hjoin
  generalize hcomps : (pieces isBackslash (rest.drop 1)).filter (· ≠ []) ++
    (pieces isWinSep path).filter meaningful = comps at hjoin
  have hsep : isWinSep '\\' = true := rfl
  have hback : ∀ t, pieces isWinSep t =
      (pieces isBackslash t).flatMap (pieces isWinSep) := by
    intro t
    have hboth : (fun c => isBackslash c || isWinSep c) = isWinSep := by
      funext c
      unfold isWinSep
      cases isBackslash c with
      | true => simp
      | false => rfl
    have hor := pieces_or isBackslash isWinSep t
    rw [hboth] at hor
    exact hor
  -- the names behind the prefix, of the root and of the destination
  have hroot : names isWinSep true (front ++ rest) =
      (pieces isWinSep (rest.drop 1)).foldl (climb true) (names isWinSep true front) := by
    cases rest with
    | nil =>
      rw [List.append_nil, List.drop_nil]
      unfold pieces
      rw [List.splitOnP_nil]
      rfl
    | cons c rest => exact names_append_cons (hrest c rfl) front rest
  have hpath : ((pieces isWinSep path).filter meaningful).flatMap (pieces isWinSep) =
      (pieces isWinSep path).filter meaningful := by
    rw [List.flatMap_congr fun piece hpiece => pieces_of_forall
      (not_isSep_of_mem_pieces (List.mem_filter.mp hpiece).1)]
    exact List.flatMap_singleton' _
  have hfold : (comps.flatMap (pieces isWinSep)).foldl (climb true)
        (names isWinSep true front) =
      names isWinSep true (front ++ rest) ++ (pieces isWinSep path).filter meaningful := by
    rw [← hcomps, List.flatMap_append, List.foldl_append, foldl_flatMap_filter, ← hback,
      hpath, ← hroot, foldl_climb fun hmem => h.noParent (List.mem_filter.mp hmem).1,
      List.filter_filter]
    simp only [Bool.and_self]
  have hdest : StartsSep ((if rest ≠ [] ∨ comps ≠ [] then "\\".toList else []) ++
        List.intercalate "\\".toList comps) ∧
      names isWinSep true (front ++ ((if rest ≠ [] ∨ comps ≠ [] then "\\".toList else []) ++
        List.intercalate "\\".toList comps)) =
      (comps.flatMap (pieces isWinSep)).foldl (climb true) (names isWinSep true front) := by
    by_cases hsome : rest ≠ [] ∨ comps ≠ []
    · rw [if_pos hsome]
      refine ⟨fun c hc => ?_, ?_⟩
      · cases hc
        rfl
      · rw [← foldl_pieces_intercalate hsep]
        exact names_append_cons hsep front _
    · have hnone : comps = [] := not_not.mp (not_or.mp hsome).2
      rw [if_neg hsome, hnone]
      refine ⟨fun c hc => (nomatch hc), ?_⟩
      rw [List.flatMap_nil]
      exact congrArg _ (List.append_nil front)
  rw [hjoin, List.append_assoc, hread _ hdest.1, hread rest hrest]
  exact ⟨rfl, hdest.2.trans hfold⟩

/-! ## Below the root -/

/-- **On Windows the destination is below the root** exactly if a component of the path
means something and joining makes no prefix of the root. -/
theorem win_below_iff {path : Text} (h : AcceptedPath path) (root : Text) :
    (winPath (winJoin root path)).StrictlyBelow (winPath root) ↔
      HasName path ∧ ¬ CompletesUnc root path := by
  by_cases hcompletes : CompletesUnc root path
  · refine iff_of_false (fun hbelow => ?_) fun hboth => hboth.2 hcompletes
    have hstart : (winPrefix (winJoin root path)).1 = (winPrefix root).1 :=
      congrArg (fun anchor : Option WinPrefix × Bool => anchor.1) hbelow.1
    exact prefix_ne_of_completes h hcompletes hstart
  · have hboth : (winPath (winJoin root path)).anchor = (winPath root).anchor ∧
        (winPath (winJoin root path)).names =
          (winPath root).names ++ (pieces isWinSep path).filter meaningful := by
      cases hverbatim : isVerbatim root with
      | true => exact winPath_verbatimJoin h hverbatim
      | false => exact winPath_of_joins h (joins_of_not_completes h hverbatim hcompletes)
    rw [strictlyBelow_iff h.noParent hboth.1 hboth.2]
    exact ⟨fun hname => ⟨hname, hcompletes⟩, fun hand => hand.1⟩

/-- The destination of a path is strictly below the install root, under the rules of Unix
and of Windows. -/
def InstalledBelow (root path : Text) : Prop :=
  (unixPath (joinDest root path)).StrictlyBelow (unixPath root) ∧
    (winPath (winJoin root path)).StrictlyBelow (winPath root)

/-- **An artifact is installed strictly below the install root** exactly if a component of
its path is neither empty nor `.`, and joining does not make a prefix of a root that only
begins one. -/
theorem installed_below_iff {path : Text} (h : validateArtifactPath path = .ok ())
    (root : Text) : InstalledBelow root path ↔ HasName path ∧ ¬ CompletesUnc root path := by
  have haccepted := accepted_of_validate h
  unfold InstalledBelow
  rw [unix_below_iff haccepted, win_below_iff haccepted]
  exact ⟨fun hboth => hboth.2, fun hand => ⟨hand.1.unix, hand⟩⟩

/-- A file in a directory is installed below a root. -/
theorem nested_file_below : InstalledBelow "C:\\models".toList "ok/sub/file.gguf".toList := by
  refine (installed_below_iff (by decide +kernel) _).mpr ⟨by decide +kernel, ?_⟩
  rintro ⟨-, a, b, ha, -, ⟨hroot, -⟩ | ⟨server, -, -, hroot | ⟨sep, -, hroot⟩⟩⟩
  · cases hroot
  · rw [← (List.cons.inj hroot).1] at ha
    exact absurd ha (by decide)
  · rw [← (List.cons.inj hroot).1] at ha
    exact absurd ha (by decide)

/-- **The path `.` is accepted, and its destination is the root itself.** -/
theorem dot_is_root :
    validateArtifactPath ".".toList = .ok () ∧
      unixPath (joinDest "/models".toList ".".toList) = unixPath "/models".toList ∧
      winPath (winJoin "C:\\models".toList ".".toList) = winPath "C:\\models".toList ∧
      ¬ InstalledBelow "/models".toList ".".toList := by
  have hsame : unixPath (joinDest "/models".toList ".".toList) = unixPath "/models".toList := by
    decide +kernel
  refine ⟨by decide +kernel, hsame, by decide +kernel, ?_⟩
  rintro ⟨⟨-, rest, hne, -, hnames⟩, -⟩
  rw [hsame] at hnames
  exact hne (List.self_eq_append_right.mp hnames)

end Atlas
