import Atlas.Lines
import Atlas.StripedFetch

/-!
# The journal of a striped fetch

A striped fetch writes its pieces into a scratch file that it makes as long as the blob
at once, and notes each piece in a journal next to it. After a pause or a crash the
journal says which pieces need not be fetched again. The two files are made, appended to
and removed in separate steps, any of which may be the last one before a crash, and most
of which may fail unnoticed.

`journal_sound_of_replaced` says when the journal can be believed. It need not be: a
journal that outlives its scratch file vouches for the holes of the next one, and three
writes that were cut short can add up to the line of a piece that nobody fetched.
-/

namespace Atlas

open Transition Text

/-! ## The journal as text -/

/-- The first line of the journal of a blob: a version, the size and the hash, by which a
journal is told from another blob's. -/
def journalHeader (size : ℕ) (hash : Bytes) : Text :=
  "v1 ".toList ++ decimal size ++ " ".toList ++ hexEncode hash

/-- The line that notes a piece: its first chunk and the one after its last, in decimal. -/
def journalLine (p : Piece) : Text := decimal p.1 ++ ' ' :: decimal p.2

/-- The piece a line notes, or nothing where the line is not two numbers with a blank between. -/
def parseLine (line : Text) : Option Piece :=
  match splitOnce [' '] line with
  | none => none
  | some (start, stop) =>
    match parseU64 start, parseU64 stop with
    | some s, some e => some (s, e)
    | _, _ => none

/-- The pieces that the lines of a journal note, if the first one is the header. -/
def notedPieces (size : ℕ) (hash : Bytes) : List Text → List Piece
  | [] => []
  | first :: rest => if first = journalHeader size hash then rest.filterMap parseLine else []

/-! ## The files -/

/-- The scratch file. What was not written is zero, as with a sparse file, and nothing
records who wrote which byte. -/
structure Scratch where
  len : ℕ
  byte : ℕ → UInt8

namespace Scratch

/-- An empty file, of no length. -/
def empty : Scratch := ⟨0, fun _ => 0⟩

/-- Cut the scratch or extend it with zeros, as setting a file's length does. -/
def setLen (n : ℕ) (f : Scratch) : Scratch := ⟨n, fun i => if i < f.len then f.byte i else 0⟩

/-- Bytes of a blob are written at their own offset, and the file grows to their end if it
is shorter. -/
def fill (blob : ℕ → UInt8) (start stop : ℕ) (f : Scratch) : Scratch :=
  ⟨max f.len stop, fun i => if start ≤ i ∧ i < stop then blob i else f.byte i⟩

end Scratch

/-- How far a fetch is, between two steps at which a crash may end it. -/
inductive StripeRun where
  /-- No fetch is under way. -/
  | idle
  /-- The scratch file was created anew. -/
  | created
  /-- It has the length of the blob. -/
  | sized
  /-- The journal was read or started; these pieces are done. -/
  | ready (done : Finset Piece)
  /-- The lanes are running: the pieces they have yet to write, and those written that
  are not noted yet. -/
  | lanes (journaling : Bool) (left written : List Piece)
  deriving DecidableEq

/-- The lanes append to a journal, because one was read or could be started. -/
def StripeRun.journaling : StripeRun → Bool
  | .lanes journaling _ _ => journaling
  | _ => false

/-- The scratch file and the journal of a blob, and the fetch that uses them. -/
structure StripeFiles where
  size : ℕ
  hash : Bytes
  /-- The bytes of the blob. -/
  blob : ℕ → UInt8
  dest : Option Scratch
  journal : Option Text
  run : StripeRun

/-- A step of a fetch, of what comes before and after it, or the end of the process. -/
inductive JournalEvent where
  /-- A striped fetch starts: whether the journal can be read, and the scratch file
  created. -/
  | start (readable creatable : Bool)
  | setLen (ok : Bool)
  /-- The journal is started: it cannot be opened, or this many bytes are written. -/
  | writeJournal (written : Option ℕ)
  /-- The journal is opened for appending; if nothing is left to do it is removed. -/
  | proceed (ok : Bool)
  /-- Verified bytes are written, of a piece or less. -/
  | leaf (start stop : ℕ)
  /-- A piece is written. -/
  | piece (p : Piece)
  /-- This many bytes of the line of a piece are appended to the journal. -/
  | append (p : Piece) (written : ℕ)
  /-- A striped fetch ends; if everything is done, the journal is removed or not. -/
  | finish (removed : Bool)
  | crash
  /-- Between two striped fetches: cleanup, discarding, and the export of the single-peer
  fallback, which need not come to its end. -/
  | removeDest
  | removeJournal
  | exportBlob (len : ℕ)
  deriving DecidableEq, Repr

namespace StripeFiles

/-- The pieces the journal notes, if it is for a blob of this size and hash, and none otherwise. -/
def noted (s : StripeFiles) : List Piece :=
  match s.journal with
  | none => []
  | some text => notedPieces s.size s.hash (lines text)

/-- The pieces the journal notes, if the scratch file has the length of the blob. -/
def loadStripeJournal (s : StripeFiles) : Finset Piece :=
  match s.dest with
  | none => ∅
  | some f => if f.len = s.size then s.noted.toFinset else ∅

/-- The pieces that the next fetch takes as done; they are read off the journal, if the
scratch file has the length of the blob. -/
def accepted (s : StripeFiles) : Finset Piece := resumedPieces s.size s.loadStripeJournal

/-- The pieces that a fetch has yet to do, in the order of the file; nothing else is asked
of any peer. -/
def piecesToFetch (s : StripeFiles) (done : Finset Piece) : List Piece :=
  (stripePieces s.size).filter fun p => p ∉ done

/-- The bytes of the blob are written where they belong; the last piece ends with the blob,
and a missing file stays missing. -/
def write (start stop : ℕ) (s : StripeFiles) : StripeFiles :=
  { s with dest := s.dest.map (Scratch.fill s.blob start (min stop s.size)) }

/-- A fetch goes on with what is done, or makes the scratch file anew. -/
def startFetch (done : Finset Piece) (creatable : Bool) (s : StripeFiles) : StripeFiles :=
  if done ≠ ∅ then { s with run := .ready done }
  else if creatable then { s with dest := some Scratch.empty, run := .created }
  else s

/-- Give the destination its size before the first piece is written; where that fails,
nothing is fetched in stripes. -/
def presize (ok : Bool) (s : StripeFiles) : StripeFiles :=
  if ok then { s with dest := s.dest.map (Scratch.setLen s.size), run := .sized }
  else { s with run := .idle }

/-- Nobody looks at whether the journal was written, in full or in part, before the lanes start. -/
def startJournal (written : Option ℕ) (s : StripeFiles) : StripeFiles :=
  match written with
  | none => { s with run := .ready ∅ }
  | some n =>
    { s with
      journal := some ((journalHeader s.size s.hash ++ ['\n']).take n)
      run := .ready ∅ }

/-- The journal of a fetch with nothing left to do is removed. -/
def startLanes (done : Finset Piece) (ok : Bool) (s : StripeFiles) : StripeFiles :=
  if s.piecesToFetch done = [] then
    { s with journal := if ok then none else s.journal, run := .idle }
  else { s with run := .lanes (ok && s.journal.isSome) (s.piecesToFetch done) [] }

/-- Write a piece that is still to come, and note that it is there. -/
def writePiece (p : Piece) (journaling : Bool) (left written : List Piece) (s : StripeFiles) :
    StripeFiles :=
  if p ∈ left then
    { s.write (p.1 * BLAKE3_CHUNK) (p.2 * BLAKE3_CHUNK) with
      run := .lanes journaling (left.erase p) (p :: written) }
  else s

/-- The line of a piece is appended, all of it or not. -/
def notePiece (p : Piece) (n : ℕ) (journaling : Bool) (left written : List Piece)
    (s : StripeFiles) : StripeFiles :=
  if p ∈ written then
    { s with
      journal :=
        if journaling then s.journal.map (· ++ (journalLine p ++ ['\n']).take n) else s.journal
      run := .lanes journaling left (written.erase p) }
  else s

/-- The journal goes when every piece was journaled and deleting it works; the destination
stays. -/
def finishFetch (removed : Bool) (left written : List Piece) (s : StripeFiles) : StripeFiles :=
  { s with
    journal := if left = [] ∧ written = [] ∧ removed then none else s.journal
    run := .idle }

/-- One step of a fetch; what does not fit its state changes nothing. -/
def step (s : StripeFiles) (e : JournalEvent) : StripeFiles :=
  match s.run, e with
  | _, .crash => { s with run := .idle }
  | .idle, .start readable creatable =>
    s.startFetch (if readable then s.accepted else ∅) creatable
  | .idle, .removeDest => { s with dest := none }
  | .idle, .removeJournal => { s with journal := none }
  | .idle, .exportBlob len => { s with dest := some ⟨min len s.size, s.blob⟩ }
  | .created, .setLen ok => s.presize ok
  | .sized, .writeJournal written => s.startJournal written
  | .ready done, .proceed ok => s.startLanes done ok
  | .lanes .., .leaf start stop => s.write start stop
  | .lanes journaling left written, .piece p => s.writePiece p journaling left written
  | .lanes journaling left written, .append p n => s.notePiece p n journaling left written
  | .lanes _ left written, .finish removed => s.finishFetch removed left written
  | _, _ => s

/-- No scratch file and no journal, for a blob that was never fetched. -/
def fresh (size : ℕ) (hash : Bytes) (blob : ℕ → UInt8) : StripeFiles :=
  ⟨size, hash, blob, none, none, .idle⟩

/-- The bytes of a piece are in the scratch file, as the blob has them, whatever the journal
says of the piece. -/
def Holds (s : StripeFiles) (p : Piece) : Prop :=
  ∃ f, s.dest = some f ∧
    ∀ i, p.1 * BLAKE3_CHUNK ≤ i → i < min (p.2 * BLAKE3_CHUNK) s.size → f.byte i = s.blob i

/-- The lines of a journal that are over do not make it worthless: the first is the
header, and the pieces they note are pieces of the blob. -/
def Believable (s : StripeFiles) (text : Text) : Prop :=
  (scanLines text).1.head? = some (journalHeader s.size s.hash) ∧
    ∀ p ∈ notedPieces s.size s.hash (scanLines text).1, p ∈ stripePieces s.size

/-- A step that leaves the journal as reliable as it was. A scratch file is made only
when no journal is left that would vouch for it, or the journal is replaced; and an
append that is cut within its first number does not make the last line that of a piece
that is not there. -/
def Careful (s : StripeFiles) (e : JournalEvent) : Prop :=
  match e with
  | .setLen ok => s.run = .created → ok = true → resumedPieces s.size s.noted.toFinset = ∅
  | .writeJournal written =>
    s.run = .sized → written = none →
      ∀ text ∈ s.journal, s.Believable text → ∀ p ∈ s.noted, p ∉ stripePieces s.size
  | .append p n =>
    s.run.journaling = true → n ≤ (decimal p.1).length →
      ∀ text ∈ s.journal, s.Believable text →
        ∀ q ∈ parseLine ((scanLines text).2 ++ (decimal p.1).take n),
          q ∈ stripePieces s.size → s.Holds q
  | _ => True

end StripeFiles

/-! ## Lines put together from several writes -/

theorem parseLine_eq_some {line : Text} {q : Piece} (h : parseLine line = some q) :
    ∃ start stop, splitOnce [' '] line = some (start, stop) ∧ parseU64 start = some q.1 ∧
      parseU64 stop = some q.2 := by
  unfold parseLine at h
  split at h
  · cases h
  · rename_i start stop hsplit
    split at h
    · rename_i s e hs he
      cases h
      exact ⟨start, stop, hsplit, hs, he⟩
    · cases h

/-- **A line that ends with the digits of a piece notes no other piece of the grid.** The
second number was cut at most, so that it is no larger than the end of the piece; and the
first is no smaller than its start. -/
theorem parseLine_append {size : ℕ} {p q : Piece} (hp : p ∈ stripePieces size)
    (hq : q ∈ stripePieces size) {t : Text} {n : ℕ}
    (h : parseLine (t ++ (decimal p.1 ++ ' ' :: (decimal p.2).take n)) = some q) : q = p := by
  obtain ⟨start, stop, hsplit, hs, he⟩ := parseLine_eq_some h
  by_cases hspace : ' ' ∈ t
  · -- a second space is left in the second number
    obtain ⟨a, b, rfl, ha⟩ := List.eq_append_cons_of_mem hspace
    have hcut := @splitOnce_append ' ' [] a ha
      (b ++ (decimal p.1 ++ ' ' :: (decimal p.2).take n))
    rw [List.append_assoc] at hsplit
    have hstop : b ++ (decimal p.1 ++ ' ' :: (decimal p.2).take n) = stop :=
      congrArg Prod.snd (Option.some.inj (hcut.symm.trans hsplit))
    have hmem : ' ' ∈ stop := by
      rw [← hstop]
      exact List.mem_append_right _ (List.mem_append_right _ List.mem_cons_self)
    rw [parseU64_eq_none rfl (by decide) hmem] at he
    cases he
  · have hnot : ' ' ∉ t ++ decimal p.1 := by
      intro hmem
      obtain hmem | hmem := List.mem_append.mp hmem
      · exact hspace hmem
      · exact not_mem_decimal rfl hmem
    have hcut := @splitOnce_append ' ' [] _ hnot ((decimal p.2).take n)
    rw [← List.append_assoc] at hsplit
    obtain ⟨rfl, rfl⟩ := Prod.mk.inj (Option.some.inj (hcut.symm.trans hsplit))
    exact stripePieces_unique hp hq (le_of_parseU64_append hs) (le_of_parseU64_take he)

/-! ## What a journal vouches for -/

/-- What is no digit and not before the first number is not in the header of a journal. -/
theorem not_mem_journalHeader {c : Char} (hc : isAsciiHexdigit c = false)
    (hdigit : c.isDigit = false) (hstart : c ∉ "v1 ".toList) (size : ℕ) (hash : Bytes) : c ∉ journalHeader size hash := by
  intro h
  obtain h | h := List.mem_append.mp h
  · obtain h | h := List.mem_append.mp h
    · obtain h | h := List.mem_append.mp h
      · exact hstart h
      · exact not_mem_decimal hdigit h
    · exact hstart (List.mem_of_mem_drop (show c ∈ "v1 ".toList.drop 2 from h))
  · exact absurd (List.all_eq_true.mp (all_isAsciiHexdigit_hexEncode hash) _ h)
      (by rw [hc]; exact Bool.false_ne_true)

theorem lineFeed_not_mem_journalHeader (size : ℕ) (hash : Bytes) :
    '\n' ∉ journalHeader size hash :=
  not_mem_journalHeader (by decide) (by decide) (by decide) size hash

theorem not_mem_journalLine (p : Piece) : '\n' ∉ journalLine p := by
  intro h
  obtain h | h := List.mem_append.mp h
  · exact not_mem_decimal rfl h
  · obtain h | h := List.mem_cons.mp h
    · exact absurd h (by decide)
    · exact not_mem_decimal rfl h

/-- The line of a piece ends with a digit. -/
theorem getLast?_append_journalLine (t : Text) (p : Piece) :
    (t ++ journalLine p).getLast? ≠ some '\r' := by
  have hassoc : t ++ journalLine p = (t ++ decimal p.1 ++ [' ']) ++ decimal p.2 := by
    simp [journalLine]
  rw [hassoc, List.getLast?_append_of_ne_nil _ (decimal_ne_nil _)]
  intro h
  exact not_mem_decimal rfl (List.mem_of_getLast? h)

/-- A journal that notes a piece starts with the header. -/
theorem head?_of_mem_notedPieces {size : ℕ} {hash : Bytes} {ls : List Text} {q : Piece}
    (h : q ∈ notedPieces size hash ls) : ls.head? = some (journalHeader size hash) := by
  cases ls with
  | nil => cases h
  | cons first rest =>
    by_cases hfirst : first = journalHeader size hash
    · exact congrArg some hfirst
    · rw [show notedPieces size hash (first :: rest) = [] from if_neg hfirst] at h
      cases h

/-- A line that is added notes a piece if it is not the first. -/
theorem mem_notedPieces_append {size : ℕ} {hash : Bytes} {ls : List Text} {l : Text} {q : Piece} :
    q ∈ notedPieces size hash (ls ++ [l]) ↔ q ∈ notedPieces size hash ls ∨
      (ls.head? = some (journalHeader size hash) ∧ parseLine l = some q) := by
  cases ls with
  | nil =>
    show q ∈ (if l = _ then [] else []) ↔ q ∈ [] ∨ none = some _ ∧ _
    rw [ite_self]
    simp
  | cons first rest =>
    show q ∈ (if first = _ then (rest ++ [l]).filterMap parseLine else []) ↔
      q ∈ (if first = _ then rest.filterMap parseLine else []) ∨ some first = some _ ∧ _
    by_cases hfirst : first = journalHeader size hash
    · rw [if_pos hfirst, if_pos hfirst, List.filterMap_append, List.mem_append]
      simp [hfirst]
    · rw [if_neg hfirst, if_neg hfirst]
      simp [hfirst]

/-- The last line counts like the others, though it need not be over. -/
theorem mem_notedPieces_lines {size : ℕ} {hash : Bytes} {text : Text} {q : Piece} :
    q ∈ notedPieces size hash (lines text) ↔
      q ∈ notedPieces size hash (scanLines text).1 ∨
        ((scanLines text).1.head? = some (journalHeader size hash) ∧
          parseLine (scanLines text).2 = some q) := by
  unfold lines
  split
  · rename_i hnil
    have hnone : parseLine (scanLines text).2 ≠ some q := by
      rw [hnil]
      exact nofun
    rw [List.append_nil]
    exact (or_iff_left fun h => hnone h.2).symm
  · exact mem_notedPieces_append

namespace StripeFiles

variable {s : StripeFiles} {text : Text} {p q : Piece}

/-- **What a journal vouches for is there**, unless its complete lines make it worthless. -/
def Vouched (s : StripeFiles) (text : Text) : Prop :=
  s.Believable text →
    (∀ q ∈ notedPieces s.size s.hash (scanLines text).1, s.Holds q) ∧
      ∀ q ∈ parseLine (scanLines text).2, q ∈ stripePieces s.size → s.Holds q

/-- **An append keeps a journal reliable**, if the piece it notes is there, and if it is
not cut within its first number where this would complete a line. -/
theorem Vouched.append (h : s.Vouched text) (hp : p ∈ stripePieces s.size) (hheld : s.Holds p)
    {n : ℕ} (hcut : n ≤ (decimal p.1).length → s.Believable text →
      ∀ q ∈ parseLine ((scanLines text).2 ++ (decimal p.1).take n),
        q ∈ stripePieces s.size → s.Holds q) :
    s.Vouched (text ++ (journalLine p ++ ['\n']).take n) := by
  -- what the line of the piece makes of the last line
  have hmerged {t : Text} {k : ℕ} {q : Piece}
      (hq : q ∈ parseLine (t ++ (decimal p.1 ++ ' ' :: (decimal p.2).take k)))
      (hgrid : q ∈ stripePieces s.size) : s.Holds q := by
    rw [parseLine_append hp hgrid hq]
    exact hheld
  intro hbelieve
  by_cases hn : n ≤ (journalLine p).length
  · -- the line is not over
    rw [List.take_append_of_le_length hn] at hbelieve ⊢
    have hline : '\n' ∉ (journalLine p).take n := fun hmem =>
      not_mem_journalLine p (List.mem_of_mem_take hmem)
    have hscan := scanLines_append (s := text) hline
    unfold Believable at hbelieve
    rw [hscan] at hbelieve ⊢
    obtain ⟨hnoted, htail⟩ := h hbelieve
    refine ⟨hnoted, fun q hq hgrid => ?_⟩
    by_cases hfirst : n ≤ (decimal p.1).length
    · unfold journalLine at hq
      rw [List.take_append_of_le_length hfirst] at hq
      exact hcut hfirst hbelieve q hq hgrid
    · unfold journalLine at hq
      have hlen : n - (decimal p.1).length = (n - (decimal p.1).length - 1) + 1 := by omega
      rw [List.take_append, List.take_of_length_le (by omega), hlen, List.take_succ_cons] at hq
      exact hmerged hq hgrid
  · -- the line is complete
    have hall : (journalLine p ++ ['\n']).take n = journalLine p ++ ['\n'] := by
      refine List.take_of_length_le ?_
      rw [List.length_append, List.length_singleton]
      omega
    have hscan : scanLines (text ++ (journalLine p ++ ['\n'])) =
        ((scanLines text).1 ++ [(scanLines text).2 ++ journalLine p], []) := by
      rw [← List.append_assoc, scanLines_append_lineFeed,
        scanLines_append (not_mem_journalLine p), stripCr_eq_self]
      exact getLast?_append_journalLine _ p
    unfold Believable at hbelieve
    rw [hall, hscan] at hbelieve ⊢
    refine ⟨fun q hq => ?_, fun q hq => nomatch hq⟩
    have hgrid := hbelieve.2 q hq
    obtain hq | ⟨hhead, hq⟩ := mem_notedPieces_append.mp hq
    · have hbefore : s.Believable text := ⟨head?_of_mem_notedPieces hq, fun q hq =>
        hbelieve.2 q (mem_notedPieces_append.mpr (.inl hq))⟩
      exact (h hbefore).1 q hq
    · unfold journalLine at hq
      rw [← List.take_length (l := decimal p.2)] at hq
      exact hmerged hq hgrid

/-- A journal that has the header at most vouches for nothing. -/
theorem vouched_journalHeader (s : StripeFiles) (n : ℕ) :
    s.Vouched ((journalHeader s.size s.hash ++ ['\n']).take n) := by
  have hheader := lineFeed_not_mem_journalHeader s.size s.hash
  intro hbelieve
  by_cases hn : n ≤ (journalHeader s.size s.hash).length
  · -- no line is over
    rw [List.take_append_of_le_length hn] at hbelieve
    have hscan := scanLines_append (s := [])
      (fun hmem => hheader (List.mem_of_mem_take (i := n) hmem))
    rw [List.nil_append] at hscan
    have hhead := hbelieve.1
    rw [hscan] at hhead
    cases hhead
  · have hall : (journalHeader s.size s.hash ++ ['\n']).take n =
        [] ++ journalHeader s.size s.hash ++ ['\n'] := by
      refine List.take_of_length_le ?_
      rw [List.length_append, List.length_singleton]
      omega
    rw [hall, scanLines_append_lineFeed]
    refine ⟨fun q hq => ?_, fun q hq => nomatch hq⟩
    obtain hq | ⟨hhead, -⟩ := mem_notedPieces_append.mp hq
    · rw [scanLines_append hheader] at hq
      cases hq
    · rw [scanLines_append hheader] at hhead
      cases hhead

/-- The pieces that are taken as done are those noted, all of them pieces of the blob. -/
theorem mem_accepted (h : p ∈ s.accepted) :
    p ∈ s.noted ∧ (∀ q ∈ s.noted, q ∈ stripePieces s.size) ∧
      ∃ f, s.dest = some f ∧ f.len = s.size := by
  unfold accepted resumedPieces at h
  split at h
  · rename_i hgrid
    unfold loadStripeJournal at h hgrid
    rcases hdest : s.dest with _ | f
    · rw [hdest] at h
      exact absurd h (Finset.notMem_empty p)
    · rw [hdest] at h hgrid
      dsimp only at h hgrid
      split at h
      · rename_i hlen
        rw [if_pos hlen] at hgrid
        exact ⟨List.mem_toFinset.mp h, fun q hq => hgrid q (List.mem_toFinset.mpr hq),
          f, rfl, hlen⟩
      · exact absurd h (Finset.notMem_empty p)
  · exact absurd h (Finset.notMem_empty p)

theorem noted_of_journal (h : s.journal = some text) :
    s.noted = notedPieces s.size s.hash (lines text) := by
  unfold noted
  rw [h]

/-- **What the next fetch takes as done is there.** -/
theorem holds_of_vouched (h : ∀ text ∈ s.journal, s.Vouched text) (hp : p ∈ s.accepted) :
    s.Holds p := by
  obtain ⟨hnoted, hgrid, -⟩ := mem_accepted hp
  rcases hjournal : s.journal with _ | text
  · unfold noted at hnoted
    rw [hjournal] at hnoted
    cases hnoted
  · have heq := noted_of_journal hjournal
    rw [heq] at hnoted hgrid
    have hhead : (scanLines text).1.head? = some (journalHeader s.size s.hash) := by
      obtain hline | hline := mem_notedPieces_lines.mp hnoted
      · exact head?_of_mem_notedPieces hline
      · exact hline.1
    have hbelieve : s.Believable text :=
      ⟨hhead, fun q hq => hgrid q (mem_notedPieces_lines.mpr (.inl hq))⟩
    obtain ⟨hover, htail⟩ := h text hjournal hbelieve
    obtain hline | hline := mem_notedPieces_lines.mp hnoted
    · exact hover p hline
    · exact htail p hline.2 (hgrid p hnoted)

/-- A journal that is taken up is reliable. -/
theorem vouched_of_accepted (h : ∀ p ∈ s.accepted, s.Holds p) (hne : s.accepted ≠ ∅) :
    ∀ text ∈ s.journal, s.Vouched text := by
  intro text hjournal hbelieve
  obtain ⟨p, hp⟩ := Finset.nonempty_iff_ne_empty.mpr hne
  obtain ⟨-, hgrid, f, hdest, hlen⟩ := mem_accepted hp
  have hall : ∀ q ∈ s.noted, s.Holds q := by
    intro q hq
    refine h q ?_
    have hload : s.loadStripeJournal = s.noted.toFinset := by
      unfold loadStripeJournal
      rw [hdest]
      exact if_pos hlen
    unfold accepted resumedPieces
    rw [hload, if_pos fun q hq => hgrid q (List.mem_toFinset.mp hq)]
    exact List.mem_toFinset.mpr hq
  rw [noted_of_journal hjournal] at hall
  exact ⟨fun q hq => hall q (mem_notedPieces_lines.mpr (.inl hq)),
    fun q hq _ => hall q (mem_notedPieces_lines.mpr (.inr ⟨hbelieve.1, hq⟩))⟩

/-- Writing the bytes of the blob takes nothing away. -/
theorem Holds.write (h : s.Holds p) (start stop : ℕ) : (s.write start stop).Holds p := by
  obtain ⟨f, hdest, hbytes⟩ := h
  refine ⟨f.fill s.blob start (min stop s.size), ?_, fun i hstart hstop => ?_⟩
  · show s.dest.map _ = _
    rw [hdest]
    rfl
  · show (if _ then s.blob i else f.byte i) = s.blob i
    rw [hbytes i hstart hstop, ite_self]

/-- A piece that is written is there. -/
theorem holds_write {f : Scratch} (hdest : s.dest = some f) (p : Piece) :
    (s.write (p.1 * BLAKE3_CHUNK) (p.2 * BLAKE3_CHUNK)).Holds p := by
  refine ⟨f.fill s.blob (p.1 * BLAKE3_CHUNK) (min (p.2 * BLAKE3_CHUNK) s.size), ?_,
    fun i hstart hstop => if_pos ⟨hstart, hstop⟩⟩
  show s.dest.map _ = _
  rw [hdest]
  rfl

/-! ## Runs -/

/-- The scratch file has the length of the blob, which it is given before the first piece is
written. -/
def Presized (s : StripeFiles) : Prop := ∃ f, s.dest = some f ∧ f.len = s.size

/-- What holds while the lanes are running: the scratch has its length, and the journal
vouches only for pieces that are there. -/
structure LanesSound (s : StripeFiles) (left written : List Piece) : Prop where
  sized : s.Presized
  vouched : ∀ text ∈ s.journal, s.Vouched text
  left : ∀ p ∈ left, p ∈ stripePieces s.size
  written : ∀ p ∈ written, p ∈ stripePieces s.size ∧ s.Holds p

/-- What holds while a fetch is under way, point by point. -/
def RunSound (s : StripeFiles) : Prop :=
  match s.run with
  | .idle => True
  | .created => s.dest = some Scratch.empty
  | .sized => s.Presized
  | .ready _ => s.Presized ∧ ∀ text ∈ s.journal, s.Vouched text
  | .lanes _ left written => s.LanesSound left written

/-- The journal is right about what the next fetch would take as done, and stays so. -/
structure Sound (s : StripeFiles) : Prop where
  holds : ∀ p ∈ s.accepted, s.Holds p
  run : s.RunSound

/-- A blob without bytes has no pieces. -/
theorem size_pos_of_mem_accepted (h : p ∈ s.accepted) : 0 < s.size := by
  obtain ⟨hnoted, hgrid, -⟩ := mem_accepted h
  have hmem := mem_stripesFrom (hgrid p hnoted)
  have hchunk : BLAKE3_CHUNK = 1024 := rfl
  rw [hchunk] at hmem
  omega

theorem sound_fresh (size : ℕ) (hash : Bytes) (blob : ℕ → UInt8) :
    (fresh size hash blob).Sound :=
  ⟨fun _ hp => absurd (mem_accepted hp).1 List.not_mem_nil, trivial⟩

/-- Between two fetches there is nothing more to keep. -/
theorem sound_idle (h : ∀ p ∈ s.accepted, s.Holds p) (hidle : s.run = .idle) : s.Sound := by
  refine ⟨h, ?_⟩
  unfold RunSound
  rw [hidle]
  trivial

/-- While the journal is in use, all that it vouches for is there. -/
theorem sound_of_vouched (h : ∀ text ∈ s.journal, s.Vouched text) (hrun : s.RunSound) :
    s.Sound :=
  ⟨fun _ => holds_of_vouched h, hrun⟩

theorem Sound.startFetch (h : s.Sound) {done : Finset Piece} (hdone : done = s.accepted ∨ done = ∅)
    (creatable : Bool) : (s.startFetch done creatable).Sound := by
  unfold StripeFiles.startFetch
  split
  · rename_i hne
    obtain rfl := hdone.resolve_right hne
    obtain ⟨p, hp⟩ := Finset.nonempty_iff_ne_empty.mpr hne
    have hvouched := vouched_of_accepted h.holds hne
    exact ⟨h.holds, (mem_accepted hp).2.2, hvouched⟩
  split
  · -- an empty file is not taken for a blob with pieces
    refine ⟨fun p hp => ?_, rfl⟩
    obtain ⟨f, hf, hlen⟩ := (mem_accepted hp).2.2
    have hpos := size_pos_of_mem_accepted hp
    obtain rfl : Scratch.empty = f := Option.some.inj hf
    exact absurd hlen hpos.ne
  · exact h

theorem Sound.presize (h : s.Sound) (hdest : s.dest = some Scratch.empty) {ok : Bool}
    (hcareful : ok = true → resumedPieces s.size s.noted.toFinset = ∅) :
    (s.presize ok).Sound := by
  unfold StripeFiles.presize
  split
  · rename_i hok
    refine ⟨fun p hp => ?_, _, congrArg (Option.map _) hdest, rfl⟩
    have hempty := hcareful hok
    obtain ⟨hnoted, hgrid, -⟩ := mem_accepted hp
    have hall : ∀ q ∈ s.noted.toFinset, q ∈ stripePieces s.size := fun q hq =>
      hgrid q (List.mem_toFinset.mp hq)
    unfold resumedPieces at hempty
    rw [if_pos hall] at hempty
    have hmem : p ∈ s.noted.toFinset := List.mem_toFinset.mpr hnoted
    rw [hempty] at hmem
    exact absurd hmem (Finset.notMem_empty p)
  · exact ⟨h.holds, trivial⟩

theorem sound_startJournal (hsized : s.Presized) {written : Option ℕ}
    (hcareful : written = none →
      ∀ text ∈ s.journal, s.Believable text → ∀ p ∈ s.noted, p ∉ stripePieces s.size) :
    (s.startJournal written).Sound := by
  cases written with
  | none =>
    have hvouched : ∀ text ∈ s.journal, s.Vouched text := by
      intro text hjournal hbelieve
      have hnone := hcareful rfl text hjournal hbelieve
      rw [noted_of_journal hjournal] at hnone
      refine ⟨fun q hq => ?_, fun q hq hgrid => ?_⟩
      · exact absurd (hbelieve.2 q hq) (hnone q (mem_notedPieces_lines.mpr (.inl hq)))
      · exact absurd hgrid (hnone q (mem_notedPieces_lines.mpr (.inr ⟨hbelieve.1, hq⟩)))
    show ({ s with run := .ready ∅ } : StripeFiles).Sound
    exact sound_of_vouched hvouched ⟨hsized, hvouched⟩
  | some n =>
    have hvouched : ∀ text ∈ (s.startJournal (some n)).journal, s.Vouched text := by
      intro text htext
      obtain rfl := Option.some.inj htext
      exact vouched_journalHeader s n
    exact sound_of_vouched hvouched ⟨hsized, hvouched⟩

/-- Without its journal, nothing is taken as done. -/
theorem sound_remove (h : s.Sound) (removed : Prop) [Decidable removed] :
    ({ s with
        journal := if removed then none else s.journal
        run := .idle } : StripeFiles).Sound := by
  split
  · exact ⟨fun _ hp => absurd (mem_accepted hp).1 List.not_mem_nil, trivial⟩
  · exact ⟨h.holds, trivial⟩

theorem Sound.startLanes (h : s.Sound) (hsized : s.Presized)
    (hvouched : ∀ text ∈ s.journal, s.Vouched text) (done : Finset Piece) (ok : Bool) :
    (s.startLanes done ok).Sound := by
  unfold StripeFiles.startLanes
  split
  · exact sound_remove h _
  · refine ⟨h.holds, hsized, hvouched, fun p hp => ?_, fun p hp => nomatch hp⟩
    exact (List.mem_filter.mp hp).1

/-- Writing the bytes of the blob keeps a journal reliable. -/
theorem Vouched.write (h : s.Vouched text) (start stop : ℕ) :
    (s.write start stop).Vouched text := by
  intro hbelieve
  obtain ⟨hover, htail⟩ := h hbelieve
  exact ⟨fun q hq => (hover q hq).write _ _, fun q hq hgrid => (htail q hq hgrid).write _ _⟩

theorem Presized.write (h : s.Presized) (start stop : ℕ) : (s.write start stop).Presized := by
  obtain ⟨f, hdest, hlen⟩ := h
  refine ⟨f.fill s.blob start (min stop s.size), ?_, ?_⟩
  · show s.dest.map _ = _
    rw [hdest]
    rfl
  · show max f.len (min stop s.size) = s.size
    omega

theorem LanesSound.write {left written : List Piece} (h : s.LanesSound left written)
    (start stop : ℕ) : (s.write start stop).LanesSound left written where
  sized := h.sized.write start stop
  vouched := fun text htext => (h.vouched text htext).write start stop
  left := h.left
  written := fun p hp => ⟨(h.written p hp).1, (h.written p hp).2.write start stop⟩

theorem LanesSound.writePiece {left written : List Piece} (h : s.LanesSound left written)
    (hlanes : s.Sound) (p : Piece) (journaling : Bool) :
    (s.writePiece p journaling left written).Sound := by
  unfold StripeFiles.writePiece
  split
  · rename_i hp
    have hwrite := h.write (p.1 * BLAKE3_CHUNK) (p.2 * BLAKE3_CHUNK)
    obtain ⟨f, hdest, -⟩ := h.sized
    refine sound_of_vouched hwrite.vouched ⟨hwrite.sized, hwrite.vouched, ?_, ?_⟩
    · exact fun q hq => h.left q (List.mem_of_mem_erase hq)
    · intro q hq
      obtain rfl | hq := List.mem_cons.mp hq
      · exact ⟨h.left q hp, holds_write hdest q⟩
      · exact hwrite.written q hq
  · exact hlanes

theorem LanesSound.notePiece {left written : List Piece} (h : s.LanesSound left written)
    (hlanes : s.Sound) (p : Piece) (n : ℕ) (journaling : Bool)
    (hcareful : journaling = true → n ≤ (decimal p.1).length → ∀ text ∈ s.journal,
      s.Believable text → ∀ q ∈ parseLine ((scanLines text).2 ++ (decimal p.1).take n),
        q ∈ stripePieces s.size → s.Holds q) :
    (s.notePiece p n journaling left written).Sound := by
  unfold StripeFiles.notePiece
  split
  · rename_i hp
    have hwritten : ∀ q ∈ written.erase p, q ∈ stripePieces s.size ∧ s.Holds q := fun q hq =>
      h.written q (List.mem_of_mem_erase hq)
    cases journaling with
    | true =>
      have hvouched : ∀ text ∈ s.journal.map (· ++ (journalLine p ++ ['\n']).take n),
          s.Vouched text := by
        intro text htext
        obtain ⟨before, hbefore, rfl⟩ := Option.mem_map.mp htext
        exact (h.vouched before hbefore).append (h.written p hp).1 (h.written p hp).2
          fun hn => hcareful rfl hn before hbefore
      exact sound_of_vouched hvouched ⟨h.sized, hvouched, h.left, hwritten⟩
    | false => exact sound_of_vouched h.vouched ⟨h.sized, h.vouched, h.left, hwritten⟩
  · exact hlanes

/-- **A careful step keeps the journal right.** -/
theorem Sound.step (h : s.Sound) {e : JournalEvent} (hcareful : s.Careful e) :
    (s.step e).Sound := by
  have hrun := h.run
  unfold RunSound at hrun
  unfold StripeFiles.step
  -- the event and the run's phase together pick the branch; where they do not fit, nothing happens
  split
  · exact ⟨h.holds, trivial⟩
  -- a new fetch reads the journal it finds, and one it cannot read vouches for nothing
  · rename_i readable creatable hidle
    refine h.startFetch ?_ creatable
    cases readable with
    | true => exact .inl rfl
    | false => exact .inr rfl
  · rename_i hidle
    refine sound_idle (fun p hp => ?_) hidle
    obtain ⟨f, hf, -⟩ := (mem_accepted hp).2.2
    cases hf
  · rename_i hidle
    exact sound_idle (fun _ hp => absurd (mem_accepted hp).1 List.not_mem_nil) hidle
  · rename_i len hidle
    exact sound_idle (fun p _ => ⟨_, rfl, fun _ _ _ => rfl⟩) hidle
  · rename_i ok hphase
    rw [hphase] at hrun
    exact h.presize hrun (hcareful hphase)
  · rename_i written hphase
    rw [hphase] at hrun
    exact sound_startJournal hrun (hcareful hphase)
  · rename_i done ok hphase
    rw [hphase] at hrun
    exact h.startLanes hrun.1 hrun.2 done ok
  · rename_i start stop hphase
    rw [hphase] at hrun
    have hwrite := hrun.write start stop
    refine sound_of_vouched hwrite.vouched ?_
    show StripeFiles.RunSound (s.write start stop)
    unfold RunSound
    rw [show (s.write start stop).run = s.run from rfl, hphase]
    exact hwrite
  · rename_i journaling left written p hphase
    rw [hphase] at hrun
    exact hrun.writePiece h p journaling
  · rename_i journaling left written p n hphase
    rw [hphase] at hrun
    refine hrun.notePiece h p n journaling fun hjournaling => hcareful ?_
    rw [hphase]
    exact hjournaling
  · exact sound_remove h _
  · exact h

theorem not_holds_of_byte (i : ℕ)
    (hpiece : p.1 * BLAKE3_CHUNK ≤ i ∧ i < min (p.2 * BLAKE3_CHUNK) s.size)
    (hbyte : s.dest.map (fun f => decide (f.byte i = s.blob i)) = some false) : ¬ s.Holds p := by
  rintro ⟨f, hdest, h⟩
  rw [hdest] at hbyte
  exact of_decide_eq_false (Option.some.inj hbyte) (h i hpiece.1 hpiece.2)

instance decidableHolds (s : StripeFiles) (p : Piece) : Decidable (s.Holds p) :=
  match hdest : s.dest with
  | none => .isFalse fun ⟨_, hf, _⟩ => by
    rw [hdest] at hf
    cases hf
  | some f =>
    decidable_of_iff
      (∀ i < min (p.2 * BLAKE3_CHUNK) s.size, p.1 * BLAKE3_CHUNK ≤ i → f.byte i = s.blob i)
      ⟨fun h => ⟨f, hdest, fun i hstart hstop => h i hstop hstart⟩, fun ⟨g, hg, h⟩ => by
        rw [hdest] at hg
        obtain rfl := Option.some.inj hg
        exact fun i hstop hstart => h i hstart hstop⟩

instance decidableBelievable (s : StripeFiles) (text : Text) : Decidable (s.Believable text) :=
  inferInstanceAs (Decidable (_ ∧ _))

instance decidableCareful (s : StripeFiles) (e : JournalEvent) : Decidable (s.Careful e) :=
  match e with
  | .setLen _ => inferInstanceAs (Decidable (_ → _ → _))
  | .writeJournal _ => inferInstanceAs (Decidable (_ → _ → _))
  | .append _ _ => inferInstanceAs (Decidable (_ → _ → _))
  | .start _ _ | .proceed _ | .leaf _ _ | .piece _ | .finish _ | .crash | .removeDest
  | .removeJournal | .exportBlob _ => .isTrue trivial

end StripeFiles

open StripeFiles

/-- **A journal that is replaced with its scratch file is right.** Whatever happens to a
blob: as long as every step is careful, the pieces the next fetch takes as done are in
the scratch file. -/
theorem journal_sound_of_replaced {size : ℕ} {hash : Bytes} {blob : ℕ → UInt8}
    {events : List JournalEvent}
    (h : Along StripeFiles.step StripeFiles.Careful events (fresh size hash blob)) :
    let s := events.foldl StripeFiles.step (fresh size hash blob)
    ∀ p ∈ s.accepted, s.Holds p :=
  (Along.invariant (fun _ _ hs he => hs.step he) (sound_fresh size hash blob) h).holds

/-- A blob of one byte is fetched, with a line that is cut on the way. -/
theorem small_journal_sound :
    let s := [JournalEvent.start true true, .setLen true, .writeJournal (some 100),
      .proceed true, .piece (0, 1), .append (0, 1) 3, .crash].foldl StripeFiles.step
        (fresh 1 [171] fun _ => 7)
    (0, 1) ∈ s.accepted ∧ ∀ p ∈ s.accepted, s.Holds p :=
  ⟨by decide +kernel, journal_sound_of_replaced (by decide +kernel)⟩

/-- **The journal vouches for what is not there.** Once because it outlives the scratch
file, which is removed first; and once because three lines that were cut add up to one. -/
theorem journal_vouches_for_holes :
    (let s := [JournalEvent.start true true, .setLen true, .writeJournal (some 100),
      .proceed true, .piece (0, 4096), .append (0, 4096) 7, .finish true,
      .exportBlob 8388608, .removeDest, .crash, .start true true, .setLen true,
      .crash].foldl StripeFiles.step (fresh 8388608 [171] fun _ => 7)
    (0, 4096) ∈ s.accepted ∧ ¬ s.Holds (0, 4096)) ∧
    (let s := [JournalEvent.start true true, .setLen true, .writeJournal (some 100),
      .proceed true, .piece (8192, 12288), .append (8192, 12288) 11,
      .piece (4096, 8192), .append (4096, 8192) 4, .piece (0, 4096), .append (0, 4096) 2,
      .piece (45056, 49152), .append (45056, 49152) 5, .crash].foldl StripeFiles.step
        (fresh 50331648 [171] fun _ => 7)
    (40960, 45056) ∈ s.accepted ∧ ¬ s.Holds (40960, 45056)) := by
  refine ⟨⟨by decide +kernel, ?_⟩, ⟨by decide +kernel, ?_⟩⟩
  · exact not_holds_of_byte 0 (by decide +kernel) (by decide +kernel)
  · exact not_holds_of_byte (40960 * 1024) (by decide +kernel) (by decide +kernel)

end Atlas
