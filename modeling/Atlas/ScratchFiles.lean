import Mathlib.Logic.Function.Basic
import Atlas.Delimited
import Atlas.Discarding
import Atlas.StripeJournal
import Atlas.StripeTiling

/-!
# The files of a scratch path

A fetch from peers writes a blob into a scratch file and notes its pieces in a journal next
to it. Both are named by the first characters of the hash, so that all fetches of a blob use
the same two names; a file that is open stays what it is when its name is taken away, and it
is another file that has the name then.

What one fetch does to the files of another is of two kinds. Making the scratch file anew
cuts the one that has the name to nothing. Everything else is `Steady`: what a file holds of
the blob it goes on to hold, and a file that comes to have the name holds all of it. The
journal can be believed (`LogOk`) if the file that has the name holds what is noted.

How much of a journal survives when lines are cut is a matter of `StripeFiles`; here a line
is appended or it is not. Files can be made, written and removed whenever their names allow
it.
-/

namespace Atlas

open Delimited Text

/-! ## Blobs -/

/-- A blob: its bytes, by offset, of which those below its size count. -/
structure Blob where
  size : ℕ
  byte : ℕ → UInt8

/-- The bytes of a blob, as a list, from the first to the last. -/
def Blob.bytes (b : Blob) : Bytes := (List.range b.size).map b.byte

/-- What a fetch is after: a hash, and the blob that has it. -/
structure Wanted where
  hash : Bytes
  blob : Blob

/-- The blobs that peers have, by their hash. What is written of one is verified, be it a
range or an export. -/
structure Swarm (D : Digests) where
  blob : Bytes → Option Blob
  verified : ∀ hash b, blob hash = some b → D.blake3 b.bytes = hash

/-- Peers have what is wanted, which is to say that the hash names this blob. -/
def Swarm.Knows {D : Digests} (W : Swarm D) (t : Wanted) : Prop := W.blob t.hash = some t.blob

/-- A file of at least this size is striped across peers; a smaller one is fetched from one
peer at a time. -/
def MULTIPEER_MIN_BYTES : ℕ := 2 * STRIPE_PIECE_BYTES

namespace Scratch

variable {b : Blob} {p : Piece} {x y : Scratch}

/-- A file of the length of a blob holds a piece of it. -/
def Has (b : Blob) (p : Piece) (x : Scratch) : Prop :=
  x.len = b.size ∧
    ∀ i, p.1 * BLAKE3_CHUNK ≤ i → i < min (p.2 * BLAKE3_CHUNK) b.size → x.byte i = b.byte i

/-- A file holds a blob: its length and every byte of it. -/
def Full (b : Blob) (x : Scratch) : Prop := x.len = b.size ∧ ∀ i < b.size, x.byte i = b.byte i

/-- A file of the length of a blob stays one, and what it holds of the blob it goes on to hold. -/
def Grows (b : Blob) (x y : Scratch) : Prop :=
  x.len = b.size → y.len = b.size ∧ ∀ i < b.size, x.byte i = b.byte i → y.byte i = b.byte i

theorem Grows.refl (b : Blob) (x : Scratch) : x.Grows b x := fun h => ⟨h, fun _ _ h => h⟩

theorem Has.grows (h : x.Has b p) (hxy : x.Grows b y) : y.Has b p :=
  ⟨(hxy h.1).1, fun i hstart hstop =>
    (hxy h.1).2 i (Nat.lt_of_lt_of_le hstop (Nat.min_le_right _ _)) (h.2 i hstart hstop)⟩

theorem Full.grows (h : x.Full b) (hxy : x.Grows b y) : y.Full b :=
  ⟨(hxy h.1).1, fun i hi => (hxy h.1).2 i hi (h.2 i hi)⟩

theorem Full.has (h : x.Full b) (p : Piece) : x.Has b p :=
  ⟨h.1, fun i _ hstop => h.2 i (Nat.lt_of_lt_of_le hstop (Nat.min_le_right _ _))⟩

/-- **A file that holds all pieces holds the blob.** -/
theorem full_of_has (hlen : x.len = b.size) (h : ∀ p ∈ stripePieces b.size, x.Has b p) :
    x.Full b := by
  refine ⟨hlen, fun i hi => ?_⟩
  have hchunk : BLAKE3_CHUNK = 1024 := rfl
  have htiles := @tiles_stripesFrom ((b.size + (BLAKE3_CHUNK - 1)) / BLAKE3_CHUNK) 0
    (Nat.zero_le _)
  have hin : i / BLAKE3_CHUNK < (b.size + (BLAKE3_CHUNK - 1)) / BLAKE3_CHUNK := by
    rw [hchunk]
    omega
  obtain ⟨p, hp, hstart, hstop⟩ := (htiles.mem_iff _).mpr ⟨Nat.zero_le _, hin⟩
  refine (h p hp).2 i ?_ (Nat.lt_min.mpr ⟨?_, hi⟩)
  · rw [hchunk] at hstart ⊢
    omega
  · rw [hchunk] at hstop ⊢
    omega

theorem grows_setLen (b : Blob) (x : Scratch) : x.Grows b (x.setLen b.size) :=
  fun hlen => ⟨rfl, fun i hi h => by
    show (if i < x.len then x.byte i else 0) = b.byte i
    rw [if_pos (hlen ▸ hi), h]⟩

/-- Bytes of the blob are written within it. -/
theorem grows_fill {start stop : ℕ} (hstop : stop ≤ b.size) (x : Scratch) :
    x.Grows b (x.fill b.byte start stop) := by
  refine fun hlen => ⟨?_, fun i hi h => ?_⟩
  · show max x.len stop = b.size
    rw [hlen]
    exact Nat.max_eq_left hstop
  · show (if start ≤ i ∧ i < stop then b.byte i else x.byte i) = b.byte i
    rw [h, ite_self]

/-- A piece that was written is there. -/
theorem has_fill (hlen : x.len = b.size) (p : Piece) :
    (x.fill b.byte (p.1 * BLAKE3_CHUNK) (min (p.2 * BLAKE3_CHUNK) b.size)).Has b p :=
  ⟨(grows_fill (Nat.min_le_right _ _) x hlen).1, fun _ hstart hstop =>
    if_pos ⟨hstart, hstop⟩⟩

end Scratch

/-! ## The journal -/

/-- All lines of a journal are over, and the first is the header of a blob. -/
def Headed (size : ℕ) (hash : Bytes) (text : Text) : Prop :=
  (scanLines text).2 = [] ∧ (scanLines text).1.head? = some (journalHeader size hash)

theorem decimal_injective {n m : ℕ} (h : decimal n = decimal m) : n = m := by
  have hn : Nat.ofDigitChars 10 (decimal n) 0 = n := Nat.ofDigitChars_ten_toDigits
  rw [h] at hn
  exact hn.symm.trans Nat.ofDigitChars_ten_toDigits

/-- **A header says which blob it is of.** -/
theorem journalHeader_inj {size size' : ℕ} {hash hash' : Bytes}
    (h : journalHeader size hash = journalHeader size' hash') : size = size' ∧ hash = hash' := by
  unfold journalHeader at h
  simp only [List.append_assoc, List.append_right_inj] at h
  have hcount : ∀ n, (decimal n).count ' ' = 0 := fun n =>
    List.count_eq_zero.mpr (not_mem_decimal rfl)
  obtain ⟨hsize, hhash⟩ :=
    append_cons_inj ((hcount size).trans (hcount size').symm) h
  refine ⟨?_, ?_⟩
  · exact decimal_injective hsize
  · have hdecode : hexDecode (hexEncode hash) = hexDecode (hexEncode hash') :=
      congrArg hexDecode hhash
    rw [hexDecode_hexEncode, hexDecode_hexEncode] at hdecode
    exact Option.some.inj hdecode

section Headed

variable {size size' : ℕ} {hash hash' : Bytes} {text : Text} {p q : Piece}

theorem scanLines_header (size : ℕ) (hash : Bytes) :
    scanLines (journalHeader size hash ++ ['\n']) = ([journalHeader size hash], []) := by
  have hcr : '\r' ∉ journalHeader size hash :=
    not_mem_journalHeader (by decide) (by decide) (by decide) size hash
  have hscan : scanLines ([] ++ journalHeader size hash) = ([], [] ++ journalHeader size hash) :=
    scanLines_append (lineFeed_not_mem_journalHeader size hash)
  rw [List.nil_append] at hscan
  rw [scanLines_append_lineFeed, hscan]
  show ([] ++ [stripCr (journalHeader size hash)], []) = _
  rw [stripCr_eq_self fun h => hcr (List.mem_of_getLast? h)]
  rfl

theorem headed_header (size : ℕ) (hash : Bytes) :
    Headed size hash (journalHeader size hash ++ ['\n']) := by
  unfold Headed
  rw [scanLines_header]
  exact ⟨rfl, rfl⟩

/-- A journal as it is started notes nothing. -/
theorem notedPieces_header (size size' : ℕ) (hash hash' : Bytes) :
    notedPieces size' hash' (lines (journalHeader size hash ++ ['\n'])) = [] := by
  unfold lines
  rw [scanLines_header]
  show (if _ then [] else []) = []
  exact ite_self _

/-- A journal that notes a piece of a blob is that blob's. -/
theorem Headed.of_noted (h : Headed size hash text)
    (hq : q ∈ notedPieces size' hash' (lines text)) : size = size' ∧ hash = hash' := by
  have hhead : (scanLines text).1.head? = some (journalHeader size' hash') := by
    obtain hq | ⟨hhead, -⟩ := mem_notedPieces_lines.mp hq
    · exact head?_of_mem_notedPieces hq
    · exact hhead
  exact journalHeader_inj (Option.some.inj (h.2.symm.trans hhead))

theorem scanLines_append_line (h : (scanLines text).2 = []) (p : Piece) :
    scanLines (text ++ (journalLine p ++ ['\n'])) =
      ((scanLines text).1 ++ [journalLine p], []) := by
  have hcr : stripCr (journalLine p) = journalLine p :=
    stripCr_eq_self (getLast?_append_journalLine [] p)
  rw [← List.append_assoc, scanLines_append_lineFeed, scanLines_append (not_mem_journalLine p), h]
  show ((scanLines text).1 ++ [stripCr (journalLine p)], []) = _
  rw [hcr]

theorem Headed.append (h : Headed size hash text) (p : Piece) :
    Headed size hash (text ++ (journalLine p ++ ['\n'])) := by
  unfold Headed
  rw [scanLines_append_line h.1]
  refine ⟨rfl, ?_⟩
  rw [List.head?_append, h.2]
  rfl

/-- **A line that is appended notes its piece**, and no other of the blob. -/
theorem Headed.noted_append (h : Headed size hash text) (hp : p ∈ stripePieces size)
    (hgrid : q ∈ stripePieces size')
    (hq : q ∈ notedPieces size' hash' (lines (text ++ (journalLine p ++ ['\n'])))) :
    q ∈ notedPieces size' hash' (lines text) ∨ q = p := by
  have hsize := ((h.append p).of_noted hq).1
  subst hsize
  have hlines : lines text = (scanLines text).1 := by
    unfold lines
    rw [h.1, if_pos rfl, List.append_nil]
  have hafter : lines (text ++ (journalLine p ++ ['\n'])) = lines text ++ [journalLine p] := by
    rw [hlines]
    unfold lines
    rw [scanLines_append_line h.1, if_pos rfl, List.append_nil]
  rw [hafter] at hq
  obtain hq | ⟨-, hline⟩ := mem_notedPieces_append.mp hq
  · exact Or.inl hq
  · refine Or.inr (parseLine_append hp hgrid (t := []) (n := (decimal p.2).length) ?_)
    rw [List.take_length]
    exact hline

end Headed

/-! ## The files of a path -/

/-- The scratch file and the journal of a path, and all files that were there. -/
structure ScratchFiles where
  /-- What a file holds, whether it still has its name or not. -/
  nodes : ℕ → Scratch
  /-- No file has this number or a larger one. -/
  next : ℕ
  /-- The file that has the name. -/
  dest : Option ℕ
  logs : ℕ → Text
  nextLog : ℕ
  journal : Option ℕ

namespace ScratchFiles

/-- Remove the scratch file; a call that has it open goes on reading it. -/
def unlinkDest (f : ScratchFiles) : ScratchFiles := { f with dest := none }

/-- Remove the journal; a call that has it open goes on appending to it. -/
def unlinkJournal (f : ScratchFiles) : ScratchFiles := { f with journal := none }

/-- The file that is there once the scratch file is created: the one the path has, or a new
one if there is nothing at the path. -/
def createdNode (f : ScratchFiles) : ℕ := f.dest.getD f.next

/-- Create the scratch file; one that is there is cut to nothing. -/
def createDest (f : ScratchFiles) : ScratchFiles :=
  { f with
    nodes := Function.update f.nodes f.createdNode Scratch.empty
    next := max f.next (f.createdNode + 1)
    dest := some f.createdNode }

/-- Give an open file a length, cutting what is beyond it or filling up with zeros. -/
def setLen (n size : ℕ) (f : ScratchFiles) : ScratchFiles :=
  { f with nodes := Function.update f.nodes n ((f.nodes n).setLen size) }

/-- The journal that is there once one is started; an existing journal is gone on with, and
is not started over. -/
def startedLog (f : ScratchFiles) : ℕ := f.journal.getD f.nextLog

/-- Write the header of a journal into a new file, or into the one that is there, which is
cut to nothing first. -/
def startJournal (size : ℕ) (hash : Bytes) (f : ScratchFiles) : ScratchFiles :=
  { f with
    logs := Function.update f.logs f.startedLog (journalHeader size hash ++ ['\n'])
    nextLog := max f.nextLog (f.startedLog + 1)
    journal := some f.startedLog }

/-- Move a blob out of the store to the scratch file; the path gets a new file, so that
handles of the old one do not see it. -/
def exportBlob (b : Blob) (f : ScratchFiles) : ScratchFiles :=
  { f with
    nodes := Function.update f.nodes f.next ⟨b.size, b.byte⟩
    next := f.next + 1
    dest := some f.next }

/-- Bytes of a blob are written into an open file at their own offset. -/
def writeRange (n : ℕ) (b : Blob) (start stop : ℕ) (f : ScratchFiles) : ScratchFiles :=
  { f with nodes := Function.update f.nodes n ((f.nodes n).fill b.byte start stop) }

/-- Append the line of a piece to a journal that was opened, if it could be. -/
def appendLine (j : Option ℕ) (p : Piece) (f : ScratchFiles) : ScratchFiles :=
  match j with
  | none => f
  | some j => { f with
      logs := Function.update f.logs j (f.logs j ++ (journalLine p ++ ['\n'])) }

/-- The length of the scratch file, or nothing where there is none. -/
def destLen (f : ScratchFiles) : Option ℕ := f.dest.map fun n => (f.nodes n).len

/-- Load the completed-piece set from a stripe journal; nothing unless the scratch file was
seen to have its full length. -/
def loadStripeJournal (sized : Bool) (size : ℕ) (hash : Bytes) (f : ScratchFiles) :
    Finset Piece :=
  match f.journal with
  | some j => if sized then (notedPieces size hash (lines (f.logs j))).toFinset else ∅
  | none => ∅

/-- What is read of an open file at an offset, which is cut short at the end of the file as
it then is. -/
def readAt (n offset count : ℕ) (f : ScratchFiles) : Bytes :=
  (List.range (min count ((f.nodes n).len - offset))).map fun i =>
    (f.nodes n).byte (offset + i)

/-! ## What can be relied on -/

/-- The files are those that were made, and every journal has a header. -/
structure Wf (f : ScratchFiles) : Prop where
  dest : ∀ n, f.dest = some n → n < f.next
  journal : ∀ j, f.journal = some j → j < f.nextLog
  headed : ∀ j < f.nextLog, ∃ size hash, MULTIPEER_MIN_BYTES ≤ size ∧
    Headed size hash (f.logs j)

/-- The file that has the name, if one has it, is as `P` says. -/
def OnDest (P : Scratch → Prop) (f : ScratchFiles) : Prop := ∀ n, f.dest = some n → P (f.nodes n)

/-- The journal, if there is one, is that of what is wanted. -/
def Mine (t : Wanted) (f : ScratchFiles) : Prop :=
  ∀ j, f.journal = some j → Headed t.blob.size t.hash (f.logs j)

/-- **The journal can be believed.** The file that has the name holds the pieces that the
journal notes, if it has the length of the blob. -/
def LogOk (known : Wanted → Prop) (f : ScratchFiles) : Prop :=
  ∀ t, known t → ∀ j, f.journal = some j → ∀ n, f.dest = some n →
    (f.nodes n).len = t.blob.size →
      ∀ p ∈ notedPieces t.blob.size t.hash (lines (f.logs j)), p ∈ stripePieces t.blob.size →
        (f.nodes n).Has t.blob p

/-- What a step of a fetch of `t` does to the files. It keeps what they hold of the blob, and
a file that comes to have the name holds all of it; a journal that comes to have the name is
one of what is wanted, and those of what is wanted remain so. -/
structure Steady (t : Wanted) (f g : ScratchFiles) : Prop where
  next : f.next ≤ g.next
  nodes : ∀ n < f.next, (f.nodes n).Grows t.blob (g.nodes n)
  dest : ∀ n, g.dest = some n → f.dest = some n ∨ (g.nodes n).Full t.blob
  nextLog : f.nextLog ≤ g.nextLog
  logs : ∀ j < f.nextLog, Headed t.blob.size t.hash (f.logs j) →
    Headed t.blob.size t.hash (g.logs j)
  journal : ∀ j, g.journal = some j →
    f.journal = some j ∨ Headed t.blob.size t.hash (g.logs j)

section

variable {t : Wanted} {f g : ScratchFiles}

theorem Steady.refl (t : Wanted) (f : ScratchFiles) : f.Steady t f :=
  ⟨le_rfl, fun _ _ => .refl _ _, fun _ => Or.inl, le_rfl, fun _ _ h => h, fun _ => Or.inl⟩

/-- **What a full file is, and a growing file stays, the file with the name stays.** -/
theorem OnDest.steady {P : Scratch → Prop} (h : f.OnDest P) (hwf : f.Wf) (hfg : f.Steady t g)
    (hgrows : ∀ x y : Scratch, x.Grows t.blob y → P x → P y)
    (hfull : ∀ x : Scratch, x.Full t.blob → P x) : g.OnDest P := by
  intro n hn
  obtain hold | hnew := hfg.dest n hn
  · exact hgrows _ _ (hfg.nodes n (hwf.dest n hold)) (h n hold)
  · exact hfull _ hnew

theorem Mine.steady (h : f.Mine t) (hwf : f.Wf) (hfg : f.Steady t g) : g.Mine t := by
  intro j hj
  obtain hold | hnew := hfg.journal j hj
  · exact hfg.logs j (hwf.journal j hold) (h j hold)
  · exact hnew

/-! ## Each operation -/

theorem steady_unlinkDest (t : Wanted) (f : ScratchFiles) : f.Steady t f.unlinkDest :=
  { Steady.refl t f with dest := fun _ h => nomatch h }

theorem steady_unlinkJournal (t : Wanted) (f : ScratchFiles) : f.Steady t f.unlinkJournal :=
  { Steady.refl t f with journal := fun _ h => nomatch h }

/-- A change of one file that keeps what it holds. -/
theorem steady_update {n : ℕ} {x : Scratch} (h : (f.nodes n).Grows t.blob x) :
    f.Steady t { f with nodes := Function.update f.nodes n x } := by
  refine { Steady.refl t f with nodes := fun m _ => ?_, dest := fun _ => Or.inl }
  show (f.nodes m).Grows t.blob (Function.update f.nodes n x m)
  by_cases hm : m = n
  · rw [hm, Function.update_self]
    exact h
  · rw [Function.update_of_ne hm]
    exact .refl _ _

theorem steady_setLen (t : Wanted) (n : ℕ) (f : ScratchFiles) :
    f.Steady t (f.setLen n t.blob.size) :=
  steady_update (Scratch.grows_setLen t.blob _)

theorem steady_writeRange (n : ℕ) {start stop : ℕ} (hstop : stop ≤ t.blob.size)
    (f : ScratchFiles) : f.Steady t (f.writeRange n t.blob start stop) :=
  steady_update (Scratch.grows_fill hstop _)

/-- What is exported is all of the blob. -/
theorem full_exportBlob (b : Blob) (f : ScratchFiles) :
    (f.exportBlob b).OnDest (Scratch.Full b) := by
  intro n hn
  obtain rfl : f.next = n := Option.some.inj hn
  show (Function.update f.nodes f.next _ f.next).Full b
  rw [Function.update_self]
  exact ⟨rfl, fun _ _ => rfl⟩

theorem steady_exportBlob (t : Wanted) (f : ScratchFiles) : f.Steady t (f.exportBlob t.blob) := by
  refine { Steady.refl t f with
    next := Nat.le_succ _
    nodes := fun n hn => ?_
    dest := fun n hn => Or.inr (full_exportBlob t.blob f n hn) }
  show (f.nodes n).Grows t.blob (Function.update f.nodes f.next _ n)
  rw [Function.update_of_ne (Nat.ne_of_lt hn)]
  exact .refl _ _

theorem mine_startJournal (t : Wanted) (f : ScratchFiles) :
    (f.startJournal t.blob.size t.hash).Mine t := by
  intro j hj
  obtain rfl : f.startedLog = j := Option.some.inj hj
  show Headed _ _ (Function.update f.logs f.startedLog _ f.startedLog)
  rw [Function.update_self]
  exact headed_header _ _

theorem steady_startJournal (t : Wanted) (f : ScratchFiles) :
    f.Steady t (f.startJournal t.blob.size t.hash) := by
  have hmine := mine_startJournal t f
  refine { Steady.refl t f with
    nextLog := Nat.le_max_left _ _
    logs := ?_
    journal := fun j hj => Or.inr (hmine j hj) }
  intro j _ h
  by_cases hj : j = f.startedLog
  · exact hj ▸ hmine _ rfl
  · show Headed _ _ (Function.update f.logs f.startedLog _ j)
    rw [Function.update_of_ne hj]
    exact h

theorem steady_appendLine (t : Wanted) (j : Option ℕ) (p : Piece) (f : ScratchFiles) :
    f.Steady t (f.appendLine j p) := by
  cases j with
  | none => exact .refl t f
  | some j =>
    refine { Steady.refl t f with logs := fun k _ h => ?_, journal := fun _ => Or.inl }
    show Headed _ _ (Function.update f.logs j _ k)
    by_cases hk : k = j
    · rw [hk, Function.update_self]
      exact (hk ▸ h).append p
    · rw [Function.update_of_ne hk]
      exact h

theorem Wf.unlinkDest (h : f.Wf) : f.unlinkDest.Wf :=
  ⟨fun _ hn => (nomatch hn), h.journal, h.headed⟩

theorem Wf.unlinkJournal (h : f.Wf) : f.unlinkJournal.Wf :=
  ⟨h.dest, fun _ hj => (nomatch hj), h.headed⟩

theorem Wf.createDest (h : f.Wf) : f.createDest.Wf := by
  refine ⟨fun n hn => ?_, h.journal, h.headed⟩
  obtain rfl : f.createdNode = n := Option.some.inj hn
  exact Nat.lt_of_lt_of_le (Nat.lt_succ_self _) (Nat.le_max_right _ _)

theorem Wf.setLen (h : f.Wf) (n size : ℕ) : (f.setLen n size).Wf := ⟨h.dest, h.journal, h.headed⟩

theorem Wf.writeRange (h : f.Wf) (n : ℕ) (b : Blob) (start stop : ℕ) :
    (f.writeRange n b start stop).Wf :=
  ⟨h.dest, h.journal, h.headed⟩

theorem Wf.exportBlob (h : f.Wf) (b : Blob) : (f.exportBlob b).Wf := by
  refine ⟨fun n hn => ?_, h.journal, h.headed⟩
  obtain rfl : f.next = n := Option.some.inj hn
  exact Nat.lt_succ_self _

theorem Wf.startJournal (h : f.Wf) {size : ℕ} (hsize : MULTIPEER_MIN_BYTES ≤ size)
    (hash : Bytes) : (f.startJournal size hash).Wf := by
  refine ⟨h.dest, fun j hj => ?_, fun j hj => ?_⟩
  · obtain rfl : f.startedLog = j := Option.some.inj hj
    exact Nat.lt_of_lt_of_le (Nat.lt_succ_self _) (Nat.le_max_right _ _)
  · show ∃ s d, _ ∧ Headed s d (Function.update f.logs f.startedLog _ j)
    by_cases hstarted : j = f.startedLog
    · rw [hstarted, Function.update_self]
      exact ⟨size, hash, hsize, headed_header size hash⟩
    · rw [Function.update_of_ne hstarted]
      refine h.headed j ?_
      obtain hlt | hlt := Nat.lt_or_ge j f.nextLog
      · exact hlt
      · -- a new journal has the next number, and an old one a smaller one
        have hle : f.startedLog ≤ f.nextLog := by
          unfold startedLog
          cases hjournal : f.journal with
          | none => exact le_rfl
          | some k => exact Nat.le_of_lt (h.journal k hjournal)
        have hj : j < max f.nextLog (f.startedLog + 1) := hj
        omega

theorem Wf.appendLine (h : f.Wf) (j : Option ℕ) (p : Piece) : (f.appendLine j p).Wf := by
  cases j with
  | none => exact h
  | some j =>
    refine ⟨h.dest, h.journal, fun k hk => ?_⟩
    obtain ⟨size, hash, hsize, hheaded⟩ := h.headed k hk
    refine ⟨size, hash, hsize, ?_⟩
    show Headed size hash (Function.update f.logs j _ k)
    by_cases hkj : k = j
    · rw [hkj, Function.update_self]
      exact (hkj ▸ hheaded).append p
    · rw [Function.update_of_ne hkj]
      exact hheaded

/-! ## The journal can be believed -/

variable {known : Wanted → Prop}

theorem LogOk.unlinkDest : f.unlinkDest.LogOk known := fun _ _ _ _ _ hn => nomatch hn

theorem LogOk.unlinkJournal : f.unlinkJournal.LogOk known := fun _ _ _ hj => nomatch hj

/-- A journal as it is started can be believed of any file. -/
theorem LogOk.startJournal (size : ℕ) (hash : Bytes) :
    (f.startJournal size hash).LogOk known := by
  intro t _ j hj n _ _ p hp
  obtain rfl : f.startedLog = j := Option.some.inj hj
  have hp : p ∈ notedPieces t.blob.size t.hash
      (lines (Function.update f.logs f.startedLog _ f.startedLog)) := hp
  rw [Function.update_self, notedPieces_header] at hp
  cases hp

/-- **A step of a fetch whose journal it is** leaves the journal as reliable as it was. -/
theorem LogOk.steady (h : f.LogOk known) (hwf : f.Wf) (hfg : f.Steady t g) (hmine : f.Mine t)
    (ht : known t) (hunique : ∀ u, known u → u.hash = t.hash → u = t)
    (hlen : f.OnDest fun x => x.len = t.blob.size) (hjournal : g.journal = f.journal)
    (hlogs : ∀ j, f.journal = some j → ∀ p ∈ notedPieces t.blob.size t.hash (lines (g.logs j)),
      p ∈ stripePieces t.blob.size →
        p ∈ notedPieces t.blob.size t.hash (lines (f.logs j)) ∨ f.OnDest (Scratch.Has t.blob p)) :
    g.LogOk known := by
  intro u hu j hj n hn hsize p hp hgrid
  obtain ⟨-, hhash⟩ := ((hmine.steady hwf hfg) j hj).of_noted hp
  obtain rfl := hunique u hu hhash.symm
  obtain hold | hnew := hfg.dest n hn
  · refine Scratch.Has.grows ?_ (hfg.nodes n (hwf.dest n hold))
    rw [hjournal] at hj
    obtain hp | hp := hlogs j hj p hp hgrid
    · exact h u hu j hj n hold (hlen n hold) p hp hgrid
    · exact hp n hold
  · exact hnew.has p

/-- The journal is that of what is wanted, or the blob is so small that it never had one. -/
def Exportable (t : Wanted) (f : ScratchFiles) : Prop :=
  t.blob.size < MULTIPEER_MIN_BYTES ∨ f.Mine t

theorem Exportable.steady (h : f.Exportable t) (hwf : f.Wf) (hfg : f.Steady t g) :
    g.Exportable t :=
  h.imp_right fun hmine => hmine.steady hwf hfg

theorem LogOk.exportBlob (hwf : f.Wf) (hexport : f.Exportable t)
    (hunique : ∀ u, known u → u.hash = t.hash → u = t) :
    (f.exportBlob t.blob).LogOk known := by
  intro u hu j hj n hn hsize p hp _
  obtain rfl : f.next = n := Option.some.inj hn
  have hnode : (f.exportBlob t.blob).nodes f.next = ⟨t.blob.size, t.blob.byte⟩ :=
    Function.update_self _ _ _
  rw [hnode] at hsize ⊢
  have hsize : t.blob.size = u.blob.size := hsize
  obtain hsmall | hmine := hexport
  · -- a journal of a blob of this size would be that of a large one
    obtain ⟨size, hash, hlarge, hheaded⟩ := hwf.headed j (hwf.journal j hj)
    obtain ⟨rfl, -⟩ := hheaded.of_noted hp
    rw [← hsize] at hlarge
    exact absurd hsmall (Nat.not_lt.mpr hlarge)
  · obtain ⟨-, hhash⟩ := (hmine j hj).of_noted hp
    obtain rfl := hunique u hu hhash.symm
    exact Scratch.Full.has ⟨rfl, fun _ _ => rfl⟩ p

/-- **What is resumed is there**, if the journal can be believed. -/
theorem LogOk.resumed (h : f.LogOk known) (hwf : f.Wf) (ht : known t)
    (hlen : f.OnDest fun x => x.len = t.blob.size) {sized : Bool}
    (hne : resumedPieces t.blob.size (f.loadStripeJournal sized t.blob.size t.hash) ≠ ∅) :
    f.Mine t ∧ ∀ p ∈ resumedPieces t.blob.size
      (f.loadStripeJournal sized t.blob.size t.hash), f.OnDest (Scratch.Has t.blob p) := by
  have hgrid : ∀ p ∈ f.loadStripeJournal sized t.blob.size t.hash,
      p ∈ stripePieces t.blob.size := by
    by_contra hnot
    exact hne (if_neg hnot)
  unfold resumedPieces at hne ⊢
  rw [if_pos hgrid] at hne ⊢
  have hnoted : ∃ j, f.journal = some j ∧ ∀ p ∈ f.loadStripeJournal sized t.blob.size t.hash,
      p ∈ notedPieces t.blob.size t.hash (lines (f.logs j)) := by
    unfold loadStripeJournal at hne ⊢
    cases hjournal : f.journal with
    | none =>
      rw [hjournal] at hne
      exact absurd rfl hne
    | some j =>
      refine ⟨j, rfl, fun p hp => ?_⟩
      cases sized with
      | false => cases hp
      | true => exact List.mem_toFinset.mp hp
  obtain ⟨j, hj, hmem⟩ := hnoted
  constructor
  · intro k hk
    obtain rfl := Option.some.inj (hj.symm.trans hk)
    obtain ⟨p, hp⟩ := Finset.nonempty_iff_ne_empty.mpr hne
    obtain ⟨size, hash, -, hheaded⟩ := hwf.headed j (hwf.journal j hj)
    obtain ⟨rfl, rfl⟩ := hheaded.of_noted (hmem p hp)
    exact hheaded
  · exact fun p hp n hn => h t ht j hj n hn (hlen n hn) p (hmem p hp) (hgrid p hp)

end

end ScratchFiles

end Atlas
