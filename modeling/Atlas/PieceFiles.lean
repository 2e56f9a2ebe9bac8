import Atlas.ChunkTracker
import Atlas.Hash
import Atlas.SparseFile

/-!
# The files of a torrent

A torrent is one row of bytes, cut into pieces without regard to the files it consists of: a
piece may begin in one file, contain others and end in yet another. Hashing a piece, reading a
chunk for a peer and writing a chunk of a peer all walk over the files a range lies in
(`overFiles`). Some files only fill up a piece; they are not on disk, and read as zeros.

`TorrentStorage.byteAt` reads the files as the row of bytes they stand for. A write leaves every
byte outside its range as it was (`writeChunk_frame`), however much of it the operating system
takes; a piece that passes its check is on disk (`onDisk_of_checkPiece`), and it passes once all
of it was written (`checkPiece_writeChunks`). What is read for a peer is what the files say
(`readChunk_some`).

The lengths of the pieces, and where they start, are again the client library's.
-/

namespace Atlas

/-! ## Walking over the files -/

section walk

variable {σ : Type}

/-- Visit the parts of files that a range of the torrent lies in, up to a part that fails. A file
that ends where the range starts is visited too. -/
def overFiles (visit : ℕ → FileInfo → ℕ → ℕ → σ → Bool × σ) :
    List (FileInfo × ℕ) → ℕ → ℕ → σ → Bool × σ
  | [], _, _, s => (true, s)
  | (f, i) :: rest, absoluteOffset, remaining, s =>
    if f.len < absoluteOffset then overFiles visit rest (absoluteOffset - f.len) remaining s
    else
      let n := min (f.len - absoluteOffset) remaining
      match visit i f absoluteOffset n s with
      | (true, s') =>
        if remaining - n = 0 then (true, s') else overFiles visit rest 0 (remaining - n) s'
      | (false, s') => (false, s')

/-- The file at an offset of the torrent, and the offset in it. -/
def locate : List (FileInfo × ℕ) → ℕ → Option (ℕ × FileInfo × ℕ)
  | [], _ => none
  | (f, i) :: rest, x => if x < f.len then some (i, f, x) else locate rest (x - f.len)

/-- How long some files are together, the padding included. -/
def filesLen (files : List (FileInfo × ℕ)) : ℕ := (files.map fun f => f.1.len).sum

variable {visit : ℕ → FileInfo → ℕ → ℕ → σ → Bool × σ} {files : List (FileInfo × ℕ)}

@[simp] theorem filesLen_cons (f : FileInfo) (i : ℕ) (rest : List (FileInfo × ℕ)) :
    filesLen ((f, i) :: rest) = f.len + filesLen rest := rfl

theorem locate_of_lt {f : FileInfo} {i x : ℕ} {rest : List (FileInfo × ℕ)} (h : x < f.len) :
    locate ((f, i) :: rest) x = some (i, f, x) := if_pos h

theorem locate_add_len (f : FileInfo) (i x : ℕ) (rest : List (FileInfo × ℕ)) :
    locate ((f, i) :: rest) (f.len + x) = locate rest x := by
  show (if f.len + x < f.len then some (i, f, f.len + x) else
    locate rest (f.len + x - f.len)) = locate rest x
  rw [if_neg (Nat.not_lt.mpr (Nat.le_add_right _ _)), Nat.add_sub_cancel_left]

theorem locate_none {x : ℕ} (h : filesLen files ≤ x) : locate files x = none := by
  induction files generalizing x with
  | nil => rfl
  | cons head rest ih =>
    obtain ⟨f, i⟩ := head
    obtain ⟨y, rfl⟩ := Nat.exists_eq_add_of_le (Nat.le_trans (Nat.le_add_right _ _) h)
    rw [locate_add_len]
    exact ih (Nat.le_of_add_le_add_left h)

theorem locate_mem {x i pos : ℕ} {f : FileInfo} (h : locate files x = some (i, f, pos)) :
    (f, i) ∈ files ∧ pos < f.len := by
  induction files generalizing x with
  | nil => cases h
  | cons head rest ih =>
    rw [locate] at h
    split at h
    · rename_i hx
      cases h
      exact ⟨List.mem_cons_self, hx⟩
    · obtain ⟨hmem, hpos⟩ := ih h
      exact ⟨List.mem_cons_of_mem _ hmem, hpos⟩

/-- **No byte of a file is at two offsets.** -/
theorem locate_zipIdx_inj {l : List FileInfo} {k x y i pos pos' : ℕ} {f f' : FileInfo}
    (hx : locate (l.zipIdx k) x = some (i, f, pos))
    (hy : locate (l.zipIdx k) y = some (i, f', pos')) : f = f' ∧ x + pos' = y + pos := by
  induction l generalizing k x y with
  | nil => cases hx
  | cons head l ih =>
    have hlater {z pos : ℕ} {f : FileInfo} (hz : locate (l.zipIdx (k + 1)) z = some (k, f, pos)) :
        False :=
      Nat.not_succ_le_self k (List.mem_zipIdx (locate_mem hz).1).1
    rw [List.zipIdx_cons, locate] at hx hy
    split at hx
    · cases hx
      split at hy
      · cases hy
        exact ⟨rfl, Nat.add_comm _ _⟩
      · exact (hlater hy).elim
    · split at hy
      · cases hy
        exact (hlater hx).elim
      · obtain ⟨hf, heq⟩ := ih hx hy
        exact ⟨hf, by omega⟩

/-- **The rule of the walk.** What holds of the first `k` bytes of a range is carried from part to
part: a part that lies where the range says it does, and that is visited with success, extends
it. -/
theorem overFiles_rule {P : ℕ → σ → Prop} {a : ℕ → Option (ℕ × FileInfo × ℕ)}
    (hvisit : ∀ i f pos n k s s', (∀ j < n, a (k + j) = some (i, f, pos + j)) → P k s →
      visit i f pos n s = (true, s') → P (k + n) s')
    {absoluteOffset remaining k : ℕ} {s s' : σ}
    (haddress : ∀ j < remaining, a (k + j) = locate files (absoluteOffset + j))
    (hs : P k s) (h : overFiles visit files absoluteOffset remaining s = (true, s')) :
    P (k + min remaining (filesLen files - absoluteOffset)) s' := by
  -- along the files, as the loop goes: a file before the range is skipped, the first one that meets
  -- it is visited, and the walk goes on from the next file's start
  induction files generalizing absoluteOffset remaining k s with
  | nil =>
    cases h
    rw [show filesLen [] = 0 from rfl, Nat.zero_sub, Nat.min_zero]
    exact hs
  | cons head rest ih =>
    obtain ⟨f, i⟩ := head
    rw [overFiles] at h
    split at h
    · rename_i hlt
      obtain ⟨y, rfl⟩ := Nat.exists_eq_add_of_lt hlt
      rw [Nat.add_assoc, Nat.add_sub_cancel_left] at h
      rw [filesLen_cons, Nat.add_assoc f.len, Nat.add_sub_add_left]
      refine ih (fun j hj => ?_) hs h
      rw [haddress j hj, Nat.add_assoc f.len, Nat.add_assoc f.len, locate_add_len]
    · rename_i hle
      dsimp only at h
      split at h
      · rename_i s₁ hfirst
        have hpart : ∀ j < min (f.len - absoluteOffset) remaining,
            a (k + j) = some (i, f, absoluteOffset + j) := by
          intro j hj
          rw [haddress j (lt_of_lt_of_le hj (min_le_right _ _))]
          exact locate_of_lt (Nat.add_lt_of_lt_sub' (lt_of_lt_of_le hj (min_le_left _ _)))
        have hs₁ := hvisit _ _ _ _ _ _ _ hpart hs hfirst
        split at h
        · rename_i hdone
          cases h
          have hfits : remaining ≤ f.len - absoluteOffset := by
            rcases min_choice (f.len - absoluteOffset) remaining with hmin | hmin
            · rw [hmin] at hdone
              exact Nat.le_of_sub_eq_zero hdone
            · exact min_eq_right_iff.mp hmin
          rw [min_eq_right hfits] at hs₁
          rwa [min_eq_left]
          rw [filesLen_cons]
          exact hfits.trans (Nat.sub_le_sub_right (Nat.le_add_right _ _) _)
        -- bytes remain, so this file was used up to its end
        · rename_i hmore
          have hpast : min (f.len - absoluteOffset) remaining = f.len - absoluteOffset := by
            refine min_eq_left (Nat.le_of_not_lt fun hlt => hmore ?_)
            rw [min_eq_right (Nat.le_of_lt hlt), Nat.sub_self]
          rw [hpast] at h hs₁ hmore
          have hend : k + min remaining (filesLen ((f, i) :: rest) - absoluteOffset) =
              k + (f.len - absoluteOffset) +
                min (remaining - (f.len - absoluteOffset)) (filesLen rest - 0) := by
            rw [filesLen_cons]
            omega
          rw [hend]
          refine ih (fun j hj => ?_) hs₁ h
          rw [Nat.add_assoc, haddress _ (Nat.add_lt_of_lt_sub' hj), Nat.zero_add,
            ← locate_add_len f i j rest]
          congr 1
          omega
      · cases h

/-- **What every part keeps the walk keeps**, whether it fails or not. -/
theorem overFiles_keeps {Q : Bool × σ → Prop} {absoluteOffset remaining : ℕ}
    (hvisit : ∀ i f pos n s, (f, i) ∈ files → (∀ j < n, ∃ x, absoluteOffset ≤ x ∧
      x < absoluteOffset + remaining ∧ locate files x = some (i, f, pos + j)) → Q (true, s) →
        Q (visit i f pos n s))
    {s : σ} (hs : Q (true, s)) : Q (overFiles visit files absoluteOffset remaining s) := by
  -- generalised to a suffix of the files: the addresses of the whole list agree with those of the
  -- suffix from where the walk stands
  suffices hgen : ∀ (rest : List (FileInfo × ℕ)) (offset left start : ℕ) (s : σ),
      (∀ f ∈ rest, f ∈ files) → absoluteOffset ≤ start →
      start + left ≤ absoluteOffset + remaining →
      (∀ j < left, locate files (start + j) = locate rest (offset + j)) → Q (true, s) →
        Q (overFiles visit rest offset left s) from
    hgen files absoluteOffset remaining absoluteOffset s (fun _ hf => hf) (Nat.le_refl _)
      (Nat.le_refl _) (fun _ _ => rfl) hs
  intro rest
  induction rest with
  | nil => exact fun _ _ _ _ _ _ _ _ hs => hs
  | cons head rest ih =>
    intro offset left start s hfiles hstart hleft haddress hs
    obtain ⟨f, i⟩ := head
    have hrest : ∀ f ∈ rest, f ∈ files := fun f hf => hfiles f (List.mem_cons_of_mem _ hf)
    rw [overFiles]
    split
    · rename_i hlt
      obtain ⟨y, rfl⟩ := Nat.exists_eq_add_of_lt hlt
      refine ih _ _ start s hrest hstart hleft (fun j hj => ?_) hs
      rw [haddress j hj, Nat.add_assoc f.len, Nat.add_sub_cancel_left, Nat.add_assoc f.len,
        locate_add_len]
    · rename_i hle
      have hpart := hvisit i f offset (min (f.len - offset) left) s
        (hfiles _ List.mem_cons_self) (fun j hj => by
          refine ⟨start + j, Nat.le_add_right_of_le hstart, ?_, ?_⟩
          · exact lt_of_lt_of_le
              (Nat.add_lt_add_left (lt_of_lt_of_le hj (min_le_right _ _)) _) hleft
          · rw [haddress j (lt_of_lt_of_le hj (min_le_right _ _))]
            exact locate_of_lt (Nat.add_lt_of_lt_sub' (lt_of_lt_of_le hj (min_le_left _ _)))) hs
      dsimp only
      split
      · rename_i s₁ hfirst
        rw [hfirst] at hpart
        split
        · exact hpart
        · rename_i hmore
          have hpast : min (f.len - offset) left = f.len - offset := by
            refine min_eq_left (Nat.le_of_not_lt fun hlt => hmore ?_)
            rw [min_eq_right (Nat.le_of_lt hlt), Nat.sub_self]
          rw [hpast] at hmore ⊢
          refine ih _ _ (start + (f.len - offset)) s₁ hrest (Nat.le_add_right_of_le hstart)
            (by omega) (fun j hj => ?_) hpart
          rw [Nat.add_assoc, haddress _ (Nat.add_lt_of_lt_sub' hj), Nat.zero_add,
            ← locate_add_len f i j rest]
          congr 1
          omega
      · rename_i s₁ hfirst
        rw [hfirst] at hpart
        exact hpart

end walk

/-! ## Reading in parts -/

/-- What is read in two parts, one after the other, is read. -/
theorem read_append {g : ℕ → Option UInt8} {first rest : Bytes} {k n : ℕ}
    (hfirst : first.length = k ∧ ∀ j < k, first[j]? = g j)
    (hrest : rest.length = n ∧ ∀ j < n, rest[j]? = g (k + j)) :
    (first ++ rest).length = k + n ∧ ∀ j < k + n, (first ++ rest)[j]? = g j := by
  obtain ⟨rfl, hfirst⟩ := hfirst
  obtain ⟨rfl, hrest⟩ := hrest
  refine ⟨List.length_append, fun j hj => ?_⟩
  by_cases hin : j < first.length
  · rw [List.getElem?_append_left hin]
    exact hfirst j hin
  · obtain ⟨j', rfl⟩ := Nat.exists_eq_add_of_le (Nat.le_of_not_lt hin)
    rw [List.getElem?_append_right (Nat.le_add_right _ _), Nat.add_sub_cancel_left]
    exact hrest j' (Nat.lt_of_add_lt_add_left hj)

/-! ## The files on disk -/

/-- The files that are open, by their place in the torrent. Those that only fill up a piece are
not on disk. -/
abbrev TorrentStorage := ℕ → Option Bytes

/-- What the operating system does with the reads and writes it is given. -/
structure FileIo where
  /-- It refuses to read some bytes of a file that are there. -/
  refuses : ℕ → ℕ → ℕ → Bool
  /-- How many bytes of a write it takes, unless it refuses it. -/
  takes : ℕ → ℕ → ℕ → Option ℕ

/-- The operating system refuses no read, so that a check fails on bytes only. -/
def FileIo.Reads (io : FileIo) : Prop := ∀ file pos n, io.refuses file pos n = false

/-- The operating system takes everything it is to write, so that no write is cut short, and
none is refused. -/
def FileIo.Writes (io : FileIo) : Prop := ∀ file pos n, io.takes file pos n = some n

namespace TorrentStorage

variable (io : FileIo) (st : TorrentStorage)

/-- Read some bytes of a file, all or none; a file that is not open, or too short, reads as
nothing, and so does a refusal. -/
def preadExact (file pos n : ℕ) : Option Bytes :=
  (st file).bind fun data =>
    if n = 0 then some []
    else if io.refuses file pos n ∨ data.length < pos + n then none
    else some ((data.drop pos).take n)

/-- Write some bytes to a file. The system call may take fewer than it is given, which nobody
notices. -/
def pwriteAllVectored (file pos : ℕ) (data : Bytes) : Bool × TorrentStorage :=
  match st file, io.takes file pos data.length with
  | some old, some n =>
    (true, Function.update st file (some (SparseFile.writeAt 0 pos (data.take n) old)))
  | _, _ => (false, st)

/-- A part of a file, zeros if it only fills up a piece. -/
def readPart (file : ℕ) (f : FileInfo) (pos n : ℕ) : Option Bytes :=
  if f.padding then some (List.replicate n 0) else st.preadExact io file pos n

/-- A byte of a file, which is zero in padding and missing past the end of what was written. -/
def cell (file : ℕ) (f : FileInfo) (pos : ℕ) : Option UInt8 :=
  if f.padding then some 0 else (st file).bind fun data => data[pos]?

/-- The byte of the torrent at an offset, if it is on disk. -/
def byteAt (files : List (FileInfo × ℕ)) (x : ℕ) : Option UInt8 :=
  (locate files x).bind fun l => st.cell l.1 l.2.1 l.2.2

/-- Feed a part of a file to a hash, through a buffer. -/
def updateHashFromFile (buf file : ℕ) (f : FileInfo) : ℕ → ℕ → ℕ → Bytes → Bool × Bytes
  | 0, _, _, hashed => (true, hashed)
  | turns + 1, pos, bytesToRead, hashed =>
    if bytesToRead = 0 then (true, hashed)
    else
      let chunk := min buf bytesToRead
      match st.readPart io file f pos chunk with
      | some data =>
        updateHashFromFile buf file f turns (pos + chunk) (bytesToRead - chunk) (hashed ++ data)
      | none => (false, hashed)

variable {io st} {file : ℕ} {f : FileInfo} {pos n : ℕ} {files : List (FileInfo × ℕ)}

/-- A part that was read is what the file says. -/
theorem readPart_some {data : Bytes} (h : st.readPart io file f pos n = some data) :
    data.length = n ∧ ∀ j < n, data[j]? = st.cell file f (pos + j) := by
  unfold readPart at h
  unfold cell
  split at h
  · rename_i hpadding
    cases h
    refine ⟨List.length_replicate, fun j hj => ?_⟩
    rw [if_pos hpadding, List.getElem?_replicate, if_pos hj]
  · rename_i hpadding
    obtain ⟨old, hold, h⟩ := Option.bind_eq_some_iff.mp h
    split at h
    · rename_i hzero
      cases h
      exact ⟨hzero.symm, fun j hj => absurd (hzero ▸ hj) (Nat.not_lt_zero j)⟩
    · split at h
      · cases h
      · rename_i hthere
        cases h
        have hlen : pos + n ≤ old.length :=
          Nat.le_of_not_lt fun hshort => hthere (Or.inr hshort)
        refine ⟨?_, fun j hj => ?_⟩
        · rw [List.length_take, List.length_drop]
          exact min_eq_left (Nat.le_sub_of_add_le' hlen)
        · rw [if_neg hpadding, hold, List.getElem?_take_of_lt hj, List.getElem?_drop]
          rfl

/-- A part that is there is read, unless the operating system refuses it. -/
theorem readPart_isSome (hreads : io.Reads) (hopen : f.padding = false → st file ≠ none)
    (h : ∀ j < n, st.cell file f (pos + j) ≠ none) :
    ∃ data, st.readPart io file f pos n = some data := by
  unfold readPart
  split
  · exact ⟨_, rfl⟩
  · rename_i hpadding
    obtain ⟨old, hold⟩ := Option.ne_none_iff_exists'.mp
      (hopen (Bool.eq_false_of_not_eq_true hpadding))
    unfold preadExact
    rw [hold, Option.bind_some]
    split
    · exact ⟨_, rfl⟩
    · rename_i hpos
      have hlen : ¬ old.length < pos + n := by
        intro hshort
        refine h (n - 1) (Nat.sub_one_lt hpos) ?_
        unfold cell
        rw [if_neg hpadding, hold, Option.bind_some]
        exact List.getElem?_eq_none (by omega)
      rw [hreads, if_neg (by simp only [Bool.false_eq_true, hlen, or_self, not_false_eq_true])]
      exact ⟨_, rfl⟩

/-- What was fed to a hash is what the file says. -/
theorem updateHashFromFile_ok {buf turns : ℕ} {hashed hashed' : Bytes} (hbuf : 0 < buf)
    (hturns : n ≤ turns)
    (h : st.updateHashFromFile io buf file f turns pos n hashed = (true, hashed')) :
    ∃ data, hashed' = hashed ++ data ∧ data.length = n ∧
      ∀ j < n, data[j]? = st.cell file f (pos + j) := by
  induction turns generalizing pos n hashed with
  | zero =>
    cases h
    obtain rfl := Nat.le_zero.mp hturns
    exact ⟨[], (List.append_nil _).symm, rfl, fun j hj => absurd hj (Nat.not_lt_zero j)⟩
  | succ turns ih =>
    rw [updateHashFromFile] at h
    split at h
    · rename_i hzero
      cases h
      exact ⟨[], (List.append_nil _).symm, hzero.symm,
        fun j hj => absurd (hzero ▸ hj) (Nat.not_lt_zero j)⟩
    · rename_i hpos
      dsimp only at h
      split at h
      · rename_i data hdata
        obtain ⟨hlen, hcells⟩ := readPart_some hdata
        obtain ⟨data', rfl, hlen', hcells'⟩ := ih (by omega) h
        have hall := read_append (g := fun j => st.cell file f (pos + j)) ⟨hlen, hcells⟩
          ⟨hlen', fun j hj => by rw [hcells' j hj, Nat.add_assoc]⟩
        rw [Nat.add_sub_cancel' (min_le_right _ _)] at hall
        exact ⟨data ++ data', List.append_assoc _ _ _, hall⟩
      · cases h

/-- What is there is fed to the hash, unless the operating system refuses it. -/
theorem updateHashFromFile_isSome {buf turns : ℕ} {hashed : Bytes} (hbuf : 0 < buf)
    (hreads : io.Reads) (hopen : f.padding = false → st file ≠ none) (hturns : n ≤ turns)
    (h : ∀ j < n, st.cell file f (pos + j) ≠ none) :
    (st.updateHashFromFile io buf file f turns pos n hashed).1 = true := by
  induction turns generalizing pos n hashed with
  | zero => rfl
  | succ turns ih =>
    rw [updateHashFromFile]
    split
    · rfl
    · rename_i hpos
      dsimp only
      obtain ⟨data, hdata⟩ := readPart_isSome (n := min buf n) hreads hopen
        fun j hj => h j (lt_of_lt_of_le hj (min_le_right _ _))
      rw [hdata]
      refine ih (by omega) fun j hj => ?_
      rw [Nat.add_assoc]
      exact h _ (Nat.add_lt_of_lt_sub' hj)

/-- A byte outside of what is written stays. -/
theorem cell_pwriteAllVectored {data : Bytes} {file' x : ℕ} {f' : FileInfo} {c : UInt8}
    (hx : file' ≠ file ∨ x < pos ∨ pos + data.length ≤ x) (h : st.cell file' f' x = some c) :
    (st.pwriteAllVectored io file pos data).2.cell file' f' x = some c := by
  unfold pwriteAllVectored
  split
  · rename_i old n hold hn
    unfold cell at h ⊢
    dsimp only
    split
    · rename_i hpadding
      rwa [if_pos hpadding] at h
    · rename_i hpadding
      rw [if_neg hpadding] at h
      by_cases hfile : file' = file
      · subst hfile
        rw [hold, Option.bind_some] at h
        rw [Function.update_self, Option.bind_some]
        refine SparseFile.getElem?_writeAt_of_outside ?_ h
        rcases hx with hx | hx | hx
        · exact absurd rfl hx
        · exact Or.inl hx
        · refine Or.inr (Nat.le_trans (Nat.add_le_add_left ?_ _) hx)
          rw [List.length_take]
          exact min_le_right _ _
      · rwa [Function.update_of_ne hfile]
  · exact h

/-- What is written is there, if the operating system takes all of it. -/
theorem pwriteAllVectored_whole {data : Bytes} (hwrites : io.Writes) (hopen : st file ≠ none) :
    (st.pwriteAllVectored io file pos data).1 = true ∧ (f.padding = false → ∀ j < data.length,
      (st.pwriteAllVectored io file pos data).2.cell file f (pos + j) = data[j]?) := by
  obtain ⟨old, hold⟩ := Option.ne_none_iff_exists'.mp hopen
  unfold pwriteAllVectored
  rw [hold, hwrites]
  dsimp only
  refine ⟨rfl, fun hpadding j hj => ?_⟩
  unfold cell
  rw [hpadding, if_neg Bool.false_ne_true, Function.update_self, Option.bind_some,
    List.take_length]
  exact SparseFile.getElem?_writeAt_add 0 old hj

/-- A write closes no file. -/
theorem pwriteAllVectored_open {data : Bytes} {file' : ℕ} (h : st file' ≠ none) :
    (st.pwriteAllVectored io file pos data).2 file' ≠ none := by
  unfold pwriteAllVectored
  split
  · dsimp only
    by_cases hfile : file' = file
    · rw [hfile, Function.update_self]
      exact Option.some_ne_none _
    · rwa [Function.update_of_ne hfile]
  · exact h

end TorrentStorage

/-! ## The pieces on disk -/

/-- What a torrent says of itself: its files, its pieces, and the digest each piece must have. -/
structure TorrentInfo where
  lengths : Lengths
  /-- Where a piece starts. -/
  pieceOffset : ℕ → ℕ
  fileInfos : List FileInfo
  /-- The SHA-1 of each piece. -/
  pieces : List Bytes

namespace TorrentInfo

variable (D : Digests) (io : FileIo) (st : TorrentStorage) (m : TorrentInfo)

/-- The files, with their places in the list, by which the storage knows them. -/
def files : List (FileInfo × ℕ) := m.fileInfos.zipIdx

/-- Whether a piece has the hash it should have, if there is such a piece. -/
def compareHash (p : ℕ) (hash : Bytes) : Option Bool := m.pieces[p]?.map fun h => h == hash

/-- Hash a piece that is on disk, if it can be read. -/
def checkPiece (p : ℕ) : Option Bool :=
  let buf := min 65536 (m.lengths.pieceLength p)
  match overFiles (fun i f pos n => st.updateHashFromFile io buf i f n pos n) m.files
      (m.pieceOffset p) (m.lengths.pieceLength p) [] with
  | (true, hashed) => m.compareHash p (D.sha1 hashed)
  | (false, _) => none

/-- Fill a buffer with a chunk, and with what follows it; the buffer must be at least as
long as the chunk, and all files under it are read. -/
def readChunk (bufLen p start size : ℕ) : Option Bytes :=
  if bufLen < size then none
  else
    match overFiles (fun i f pos n (read : Bytes) => match st.readPart io i f pos n with
      | some data => (true, read ++ data)
      | none => (false, read)) m.files (m.pieceOffset p + start) bufLen [] with
    | (true, read) => some read
    | (false, _) => none

/-- Write a chunk over the files it covers; padding takes its bytes without a write. -/
def writeChunk (p start : ℕ) (data : Bytes) : Bool × TorrentStorage :=
  let out := overFiles (fun i f pos n (s : TorrentStorage × Bytes) =>
    if f.padding then (true, (s.1, s.2.drop n))
    else
      let written := s.1.pwriteAllVectored io i pos (s.2.take n)
      (written.1, (written.2, s.2.drop n))) m.files (m.pieceOffset p + start) data.length (st, data)
  (out.1, out.2.1)

/-- Write chunks of a piece, as the content has them. A chunk is where it starts and its size. -/
def writeChunks (content : Bytes) (p : ℕ) (chunks : List (ℕ × ℕ)) : TorrentStorage :=
  chunks.foldl (fun st chunk => (m.writeChunk io st p chunk.1
    ((content.drop (m.pieceOffset p + chunk.1)).take chunk.2)).2) st

/-- The pieces lie one after another, and a chunk lies in its piece. -/
structure Tiled : Prop where
  first : m.pieceOffset 0 = 0
  next : ∀ p, p + 1 < m.lengths.totalPieces →
    m.pieceOffset (p + 1) = m.pieceOffset p + m.lengths.pieceLength p
  last : ∀ p, p + 1 = m.lengths.totalPieces →
    m.pieceOffset p + m.lengths.pieceLength p = filesLen m.files
  positive : ∀ p < m.lengths.totalPieces, 0 < m.lengths.pieceLength p
  chunk : ∀ p start len k, m.lengths.chunkInfo p start len = some k →
    start + len ≤ m.lengths.pieceLength p

/-- The torrent was made of some content. What only fills up a piece is zero. -/
structure MadeOf (content : Bytes) : Prop where
  hashes : ∀ p < m.lengths.totalPieces, m.pieces[p]? =
    some (D.sha1 ((content.drop (m.pieceOffset p)).take (m.lengths.pieceLength p)))
  length : content.length = filesLen m.files
  padding : ∀ x i f pos, locate m.files x = some (i, f, pos) → f.padding = true →
    content[x]? = some 0

/-- The files that are to be on disk are open; padding files never are, as no byte of theirs
is ever written. -/
def Opened : Prop := ∀ i f, (f, i) ∈ m.files → f.padding = false → st i ≠ none

/-- A piece of the content is on disk, byte for byte. -/
def OnDisk (content : Bytes) (p : ℕ) : Prop :=
  ∀ j < m.lengths.pieceLength p,
    st.byteAt m.files (m.pieceOffset p + j) = content[m.pieceOffset p + j]?

variable {D io st m} {p : ℕ} {content : Bytes}

/-- The one piece of a torrent is all of it. -/
theorem Tiled.of_one (hone : m.lengths.totalPieces = 1) (hfirst : m.pieceOffset 0 = 0)
    (hall : m.lengths.pieceLength 0 = filesLen m.files) (hpos : 0 < m.lengths.pieceLength 0)
    (hchunk : ∀ p start len k, m.lengths.chunkInfo p start len = some k →
      start + len ≤ m.lengths.pieceLength p) : m.Tiled where
  first := hfirst
  next p h := absurd (Nat.lt_of_succ_lt_succ (lt_of_lt_of_eq h hone)) (Nat.not_lt_zero p)
  last p h := by
    obtain rfl : p = 0 := Nat.succ.inj (h.trans hone)
    rw [hfirst, hall, Nat.zero_add]
  positive p h := by
    obtain rfl : p = 0 := Nat.lt_one_iff.mp (hone ▸ h)
    exact hpos
  chunk := hchunk

/-- A piece ends where a later one starts, or before. -/
theorem Tiled.apart (h : m.Tiled) {q : ℕ} (hpq : p < q) (hq : q < m.lengths.totalPieces) :
    m.pieceOffset p + m.lengths.pieceLength p ≤ m.pieceOffset q := by
  induction q with
  | zero => exact absurd hpq (Nat.not_lt_zero p)
  | succ q ih =>
    rw [h.next q hq]
    rcases Nat.lt_succ_iff_lt_or_eq.mp hpq with hlt | rfl
    · exact Nat.le_add_right_of_le (ih hlt (Nat.lt_of_succ_lt hq))
    · exact Nat.le_refl _

/-- Every piece lies in the files. -/
theorem Tiled.fits (h : m.Tiled) (hp : p < m.lengths.totalPieces) :
    m.pieceOffset p + m.lengths.pieceLength p ≤ filesLen m.files := by
  obtain ⟨q, hq⟩ := Nat.exists_eq_succ_of_ne_zero (Nat.ne_zero_of_lt hp)
  rw [← h.last q hq.symm]
  rcases Nat.lt_or_ge p q with hlt | hge
  · exact Nat.le_add_right_of_le (h.apart hlt (hq ▸ Nat.lt_succ_self q))
  · rw [Nat.le_antisymm (Nat.lt_succ_iff.mp (hq ▸ hp)) hge]

/-- A byte that is on disk, by where it is. -/
theorem byteAt_of_locate {x i pos : ℕ} {f : FileInfo} (h : locate m.files x = some (i, f, pos)) :
    st.byteAt m.files x = st.cell i f pos := by
  unfold TorrentStorage.byteAt
  rw [h]
  rfl

/-! ### Hashing a piece -/

/-- **A piece that is hashed is what the files say at its place.** -/
theorem checkPiece_some (hm : m.Tiled) (hp : p < m.lengths.totalPieces) {b : Bool}
    (h : m.checkPiece D io st p = some b) : ∃ hashed : Bytes,
      hashed.length = m.lengths.pieceLength p ∧ (∀ j < m.lengths.pieceLength p,
        hashed[j]? = st.byteAt m.files (m.pieceOffset p + j)) ∧
      m.compareHash p (D.sha1 hashed) = some b := by
  unfold checkPiece at h
  dsimp only at h
  split at h
  · rename_i hashed hwalk
    have hread := overFiles_rule (k := 0) (P := fun k (hashed : Bytes) => hashed.length = k ∧
        ∀ j < k, hashed[j]? = st.byteAt m.files (m.pieceOffset p + j))
      (a := fun k => locate m.files (m.pieceOffset p + k)) (fun i f pos n k s s' => ?_)
      (fun j _ => congrArg (locate m.files) (congrArg _ (Nat.zero_add j)))
      ⟨rfl, fun j hj => absurd hj (Nat.not_lt_zero j)⟩ hwalk
    · rw [Nat.zero_add, min_eq_left (Nat.le_sub_of_add_le' (hm.fits hp))] at hread
      exact ⟨hashed, hread.1, hread.2, h⟩
    · intro haddress hread hvisit
      obtain ⟨data, rfl, hlen, hcells⟩ := TorrentStorage.updateHashFromFile_ok
        (lt_min (by decide) (hm.positive p hp)) (Nat.le_refl n) hvisit
      exact read_append hread
        ⟨hlen, fun j hj => by rw [hcells j hj, byteAt_of_locate (haddress j hj)]⟩
  · cases h

/-- A piece that is there is hashed, unless the operating system refuses to read it. -/
theorem checkPiece_of_present (hm : m.Tiled) (hp : p < m.lengths.totalPieces) (hreads : io.Reads)
    (hopen : m.Opened st) (h : ∀ j < m.lengths.pieceLength p,
      st.byteAt m.files (m.pieceOffset p + j) ≠ none) :
    ∃ hashed, m.checkPiece D io st p = m.compareHash p (D.sha1 hashed) := by
  unfold checkPiece
  dsimp only
  have hwalk : (overFiles (fun i f pos n => st.updateHashFromFile io
      (min 65536 (m.lengths.pieceLength p)) i f n pos n) m.files (m.pieceOffset p)
      (m.lengths.pieceLength p) []).1 = true := by
    refine overFiles_keeps (Q := fun out => out.1 = true) (fun i f pos n s hmem hpart _ => ?_) rfl
    refine TorrentStorage.updateHashFromFile_isSome (lt_min (by decide) (hm.positive p hp))
      hreads (hopen i f hmem) (Nat.le_refl n) fun j hj => ?_
    obtain ⟨x, hle, hlt, hx⟩ := hpart j hj
    obtain ⟨y, rfl⟩ := Nat.exists_eq_add_of_le hle
    rw [← byteAt_of_locate hx]
    exact h y (Nat.lt_of_add_lt_add_left hlt)
  split
  · exact ⟨_, rfl⟩
  · rename_i hfails
    rw [hfails] at hwalk
    cases hwalk

/-- A piece with the bytes of the content is the content's. -/
theorem eq_slice {hashed : Bytes} (hlen : hashed.length = m.lengths.pieceLength p)
    (h : ∀ j < m.lengths.pieceLength p, hashed[j]? = content[m.pieceOffset p + j]?) :
    hashed = (content.drop (m.pieceOffset p)).take (m.lengths.pieceLength p) := by
  refine List.ext_getElem? fun j => ?_
  by_cases hj : j < m.lengths.pieceLength p
  · rw [List.getElem?_take_of_lt hj, List.getElem?_drop]
    exact h j hj
  · rw [List.getElem?_eq_none (hlen ▸ Nat.le_of_not_lt hj), List.getElem?_eq_none]
    exact Nat.le_trans (List.length_take_le _ _) (Nat.le_of_not_lt hj)

/-- **A piece that passes its check is on disk.** -/
theorem onDisk_of_checkPiece (hinj : Function.Injective D.sha1) (hm : m.Tiled)
    (hmade : m.MadeOf D content) (hp : p < m.lengths.totalPieces)
    (h : m.checkPiece D io st p = some true) : m.OnDisk st content p := by
  obtain ⟨hashed, hlen, hbytes, hcompare⟩ := checkPiece_some hm hp h
  unfold compareHash at hcompare
  rw [hmade.hashes p hp, Option.map_some, Option.some.injEq, beq_iff_eq] at hcompare
  intro j hj
  rw [← hbytes j hj, ← hinj hcompare, List.getElem?_take_of_lt hj, List.getElem?_drop]

/-- **A piece that is on disk passes its check**, unless the operating system refuses to read
it. -/
theorem checkPiece_of_onDisk (hm : m.Tiled) (hmade : m.MadeOf D content)
    (hp : p < m.lengths.totalPieces) (hreads : io.Reads) (hopen : m.Opened st)
    (h : m.OnDisk st content p) : m.checkPiece D io st p = some true := by
  have hthere : ∀ j < m.lengths.pieceLength p, m.pieceOffset p + j < content.length := fun j hj =>
    lt_of_lt_of_le (Nat.add_lt_add_left hj _) (hmade.length ▸ hm.fits hp)
  obtain ⟨hashed, heq⟩ := checkPiece_of_present (D := D) hm hp hreads hopen fun j hj => by
    rw [h j hj, List.getElem?_eq_getElem (hthere j hj)]
    exact Option.some_ne_none _
  cases hcheck : m.checkPiece D io st p with
  | none =>
    rw [hcheck] at heq
    unfold compareHash at heq
    rw [hmade.hashes p hp] at heq
    cases heq
  | some b =>
    obtain ⟨hashed, hlen, hbytes, hcompare⟩ := checkPiece_some hm hp hcheck
    unfold compareHash at hcompare
    rw [hmade.hashes p hp, Option.map_some, Option.some.injEq,
      eq_slice hlen fun j hj => (hbytes j hj).trans (h j hj), beq_self_eq_true] at hcompare
    rw [hcompare]

/-! ### Chunks -/

/-- What is read into the buffer is what the files say, as far as they go. -/
theorem readChunk_some {bufLen start size : ℕ} {read : Bytes}
    (h : m.readChunk io st bufLen p start size = some read) :
    read.length = min bufLen (filesLen m.files - (m.pieceOffset p + start)) ∧
      ∀ j < read.length, read[j]? = st.byteAt m.files (m.pieceOffset p + start + j) := by
  unfold readChunk at h
  split at h
  · cases h
  · split at h
    · rename_i read' hwalk
      cases h
      have hread := overFiles_rule (k := 0) (P := fun k (read : Bytes) => read.length = k ∧
          ∀ j < k, read[j]? = st.byteAt m.files (m.pieceOffset p + start + j))
        (a := fun k => locate m.files (m.pieceOffset p + start + k)) (fun i f pos n k s s' => ?_)
        (fun j _ => congrArg (locate m.files) (congrArg _ (Nat.zero_add j)))
        ⟨rfl, fun j hj => absurd hj (Nat.not_lt_zero j)⟩ hwalk
      · rw [Nat.zero_add] at hread
        exact ⟨hread.1, hread.1 ▸ hread.2⟩
      · intro haddress hread hvisit
        split at hvisit
        · rename_i data hdata
          cases hvisit
          obtain ⟨hlen, hcells⟩ := TorrentStorage.readPart_some hdata
          exact read_append hread
            ⟨hlen, fun j hj => by rw [hcells j hj, byteAt_of_locate (haddress j hj)]⟩
        · cases hvisit
    · cases h

/-- A byte that no part of a write is at stays. -/
theorem byteAt_pwriteAllVectored {x i pos n : ℕ} {f : FileInfo} {data : Bytes} {c : UInt8}
    (hpart : ∀ j < n, ∃ z, z ≠ x ∧ locate m.files z = some (i, f, pos + j))
    (hlen : data.length ≤ n) (h : st.byteAt m.files x = some c) :
    (st.pwriteAllVectored io i pos data).2.byteAt m.files x = some c := by
  obtain ⟨⟨i', f', pos'⟩, hl, hcell⟩ := Option.bind_eq_some_iff.mp h
  rw [byteAt_of_locate hl]
  refine TorrentStorage.cell_pwriteAllVectored ?_ hcell
  by_cases hi : i' = i
  · subst hi
    by_cases hlt : pos' < pos
    · exact Or.inr (Or.inl hlt)
    · obtain ⟨y, rfl⟩ := Nat.exists_eq_add_of_le (Nat.le_of_not_lt hlt)
      refine Or.inr (Or.inr (Nat.le_of_not_lt fun hin => ?_))
      obtain ⟨z, hne, hz⟩ := hpart y (lt_of_lt_of_le (Nat.lt_of_add_lt_add_left hin) hlen)
      exact hne (Nat.add_right_cancel (locate_zipIdx_inj hl hz).2).symm
  · exact Or.inl hi

/-- **A write leaves every other byte of the torrent**, however much of it is taken. -/
theorem writeChunk_frame {start x : ℕ} {data : Bytes} {c : UInt8}
    (hx : x < m.pieceOffset p + start ∨ m.pieceOffset p + start + data.length ≤ x)
    (h : st.byteAt m.files x = some c) :
    (m.writeChunk io st p start data).2.byteAt m.files x = some c := by
  unfold writeChunk
  refine overFiles_keeps (Q := fun out : Bool × TorrentStorage × Bytes =>
    out.2.1.byteAt m.files x = some c) (fun i f pos n s _ hpart hs => ?_) h
  dsimp only at hs ⊢
  split
  · exact hs
  · refine byteAt_pwriteAllVectored (f := f) (fun j hj => ?_) (List.length_take_le _ _) hs
    obtain ⟨z, hle, hlt, hz⟩ := hpart j hj
    refine ⟨z, ?_, hz⟩
    rintro rfl
    exact hx.elim (Nat.not_lt_of_le hle) (Nat.not_le_of_lt hlt)

/-- A write closes no file. -/
theorem opened_writeChunk {start : ℕ} {data : Bytes} (h : m.Opened st) :
    m.Opened (m.writeChunk io st p start data).2 := by
  unfold writeChunk
  refine overFiles_keeps (Q := fun out : Bool × TorrentStorage × Bytes => m.Opened out.2.1)
    (fun i f pos n s _ _ hs => ?_) h
  dsimp only at hs ⊢
  split
  · exact hs
  · exact fun i' f' hmem hpadding =>
      TorrentStorage.pwriteAllVectored_open (hs i' f' hmem hpadding)

/-- **A chunk of the content that is written is on disk**, if all of it is taken. -/
theorem writeChunk_content {start : ℕ} {data : Bytes} (hmade : m.MadeOf D content)
    (hwrites : io.Writes) (hopen : m.Opened st)
    (hdata : ∀ j < data.length, data[j]? = content[m.pieceOffset p + start + j]?)
    (hfits : m.pieceOffset p + start + data.length ≤ filesLen m.files) :
    (m.writeChunk io st p start data).1 = true ∧ ∀ j < data.length,
      (m.writeChunk io st p start data).2.byteAt m.files (m.pieceOffset p + start + j) =
        content[m.pieceOffset p + start + j]? := by
  have hok : (m.writeChunk io st p start data).1 = true := by
    unfold writeChunk
    refine (overFiles_keeps (Q := fun out : Bool × TorrentStorage × Bytes =>
      out.1 = true ∧ m.Opened out.2.1)
      (fun i f pos n s hmem _ hs => ?_) ⟨rfl, hopen⟩).1
    dsimp only at hs ⊢
    split
    · exact hs
    · rename_i hpadding
      exact ⟨(TorrentStorage.pwriteAllVectored_whole (f := f) hwrites
        (hs.2 i f hmem (Bool.eq_false_of_not_eq_true hpadding))).1,
        fun i' f' hmem' hpadding' =>
          TorrentStorage.pwriteAllVectored_open (hs.2 i' f' hmem' hpadding')⟩
  refine ⟨hok, ?_⟩
  unfold writeChunk at hok ⊢
  dsimp only at hok ⊢
  -- the invariant of the walk over the files: the first `k` bytes of the chunk are where their
  -- addresses say, and the rest is still to be written
  have hwalk := overFiles_rule (k := 0) (P := fun k (s : TorrentStorage × Bytes) =>
      m.Opened s.1 ∧ s.2 = data.drop k ∧ ∀ j < k, j < data.length →
        s.1.byteAt m.files (m.pieceOffset p + start + j) = content[m.pieceOffset p + start + j]?)
    (a := fun k => if k < data.length then locate m.files (m.pieceOffset p + start + k) else none)
    (fun i f pos n k s s' => ?_) (fun j hj => ?_)
    ⟨hopen, rfl, fun j hj => absurd hj (Nat.not_lt_zero j)⟩ (Prod.ext hok rfl)
  · rw [Nat.zero_add, min_eq_left (Nat.le_sub_of_add_le' hfits)] at hwalk
    exact fun j hj => hwalk.2.2 j hj hj
  · rintro haddress ⟨hs, hrest, hbytes⟩ hvisit
    have hlocate : ∀ j < n, k + j < data.length ∧
        locate m.files (m.pieceOffset p + start + (k + j)) = some (i, f, pos + j) := by
      intro j hj
      have h := haddress j hj
      split at h
      · rename_i hlt
        exact ⟨hlt, h⟩
      · cases h
    have hthere : ∀ j < data.length,
        content[m.pieceOffset p + start + j]? ≠ none := fun j hj => by
      rw [← hdata j hj, List.getElem?_eq_getElem hj]
      exact Option.some_ne_none _
    split at hvisit
    -- padding files are not written; the content there is zero by assumption, and `byteAt` reads
    -- zero
    · rename_i hpadding
      cases hvisit
      refine ⟨hs, by rw [hrest, List.drop_drop], fun j hj hlt => ?_⟩
      by_cases hfirst : j < k
      · exact hbytes j hfirst hlt
      · obtain ⟨j', rfl⟩ := Nat.exists_eq_add_of_le (Nat.le_of_not_lt hfirst)
        have hl := (hlocate j' (Nat.lt_of_add_lt_add_left hj)).2
        rw [byteAt_of_locate hl, hmade.padding _ _ _ _ hl hpadding]
        exact if_pos hpadding
    · rename_i hpadding
      obtain ⟨st', rest⟩ := s'
      obtain ⟨rfl, rfl⟩ := Prod.mk.inj (Prod.mk.inj hvisit).2
      refine ⟨fun i' f' hmem hpadding' =>
        TorrentStorage.pwriteAllVectored_open (hs i' f' hmem hpadding'),
        by rw [hrest, List.drop_drop], fun j hj hlt => ?_⟩
      dsimp only
      by_cases hfirst : j < k
      · obtain ⟨c, hc⟩ := Option.ne_none_iff_exists'.mp (hthere j hlt)
        rw [hc]
        refine byteAt_pwriteAllVectored (f := f) (fun j' hj' => ⟨_, ?_, (hlocate j' hj').2⟩)
          (List.length_take_le _ _) ((hbytes j hfirst hlt).trans hc)
        omega
      · obtain ⟨j', rfl⟩ := Nat.exists_eq_add_of_le (Nat.le_of_not_lt hfirst)
        have hj' : j' < n := Nat.lt_of_add_lt_add_left hj
        have hl := (hlocate j' hj').2
        -- the slice handed to the writer is not cut short by the end of the data
        have hwhole : (s.2.take n).length = n := by
          have hend := (hlocate (n - 1) (Nat.sub_one_lt_of_lt hj')).1
          rw [List.length_take, hrest, List.length_drop]
          omega
        rw [byteAt_of_locate hl, (TorrentStorage.pwriteAllVectored_whole hwrites
          (hs i f (locate_mem hl).1 (Bool.eq_false_of_not_eq_true hpadding))).2
          (Bool.eq_false_of_not_eq_true hpadding) j' (hwhole.symm ▸ hj'),
          List.getElem?_take_of_lt hj', hrest, List.getElem?_drop]
        exact hdata _ hlt
  · rw [Nat.zero_add, if_pos hj]

/-! ### A piece that is written -/

/-- **A byte of a piece is the content's** once its chunk was written, or if it was before. -/
theorem writeChunk_byteAt (hm : m.Tiled) (hmade : m.MadeOf D content)
    (hp : p < m.lengths.totalPieces) (hwrites : io.Writes) (hopen : m.Opened st)
    {start size x : ℕ} (hchunk : start + size ≤ m.lengths.pieceLength p) (hx : x < content.length)
    (h : m.pieceOffset p + start ≤ x ∧ x < m.pieceOffset p + start + size ∨
      st.byteAt m.files x = content[x]?) :
    (m.writeChunk io st p start ((content.drop (m.pieceOffset p + start)).take size)).2.byteAt
      m.files x = content[x]? := by
  have hfits : m.pieceOffset p + start + size ≤ content.length := by
    rw [hmade.length, Nat.add_assoc]
    exact Nat.le_trans (Nat.add_le_add_left hchunk _) (hm.fits hp)
  have hlen : ((content.drop (m.pieceOffset p + start)).take size).length = size := by
    rw [List.length_take, List.length_drop]
    exact min_eq_left (Nat.le_sub_of_add_le' hfits)
  by_cases hin : m.pieceOffset p + start ≤ x ∧ x < m.pieceOffset p + start + size
  · obtain ⟨j, rfl⟩ := Nat.exists_eq_add_of_le hin.1
    refine (writeChunk_content hmade hwrites hopen (fun j hj => ?_)
      (by rw [hlen, ← hmade.length]; exact hfits)).2 j
      (hlen.symm ▸ Nat.lt_of_add_lt_add_left hin.2)
    rw [List.getElem?_take_of_lt (hlen ▸ hj), List.getElem?_drop]
  · have hbefore := h.resolve_left hin
    rw [List.getElem?_eq_getElem hx] at hbefore ⊢
    refine writeChunk_frame ?_ hbefore
    rw [hlen]
    rcases Nat.lt_or_ge x (m.pieceOffset p + start) with hlt | hge
    · exact Or.inl hlt
    · exact Or.inr (Nat.le_of_not_lt fun hlt => hin ⟨hge, hlt⟩)

/-- What some chunks leave on disk: what they are of the content, and what was there of it. -/
theorem writeChunks_byteAt (hm : m.Tiled) (hmade : m.MadeOf D content)
    (hp : p < m.lengths.totalPieces) (hwrites : io.Writes) {chunks : List (ℕ × ℕ)}
    (hchunks : ∀ chunk ∈ chunks, chunk.1 + chunk.2 ≤ m.lengths.pieceLength p)
    (hopen : m.Opened st) :
    m.Opened (m.writeChunks io st content p chunks) ∧ ∀ x < content.length,
      ((∃ chunk ∈ chunks, m.pieceOffset p + chunk.1 ≤ x ∧
          x < m.pieceOffset p + chunk.1 + chunk.2) ∨ st.byteAt m.files x = content[x]?) →
        (m.writeChunks io st content p chunks).byteAt m.files x = content[x]? := by
  induction chunks generalizing st with
  | nil =>
    refine ⟨hopen, fun x _ h => h.resolve_left ?_⟩
    rintro ⟨chunk, hmem, -⟩
    cases hmem
  | cons chunk chunks ih =>
    obtain ⟨hopen', hbytes⟩ := ih (fun c hc => hchunks c (List.mem_cons_of_mem _ hc))
      (opened_writeChunk hopen)
    refine ⟨hopen', fun x hx h => hbytes x hx ?_⟩
    have hfirst := writeChunk_byteAt hm hmade hp hwrites hopen (x := x)
      (hchunks chunk List.mem_cons_self) hx
    rcases h with ⟨c, hmem, hin⟩ | hbefore
    · rcases List.mem_cons.mp hmem with rfl | hmem
      · exact Or.inr (hfirst (Or.inl hin))
      · exact Or.inl ⟨c, hmem, hin⟩
    · exact Or.inr (hfirst (Or.inr hbefore))

/-- **A piece passes its check once every byte of it was written**, in chunks of any size and in
any order, whatever files it lies in and whatever they said before; and what was on disk of the
other pieces still is. -/
theorem checkPiece_writeChunks (hm : m.Tiled) (hmade : m.MadeOf D content)
    (hp : p < m.lengths.totalPieces) (hreads : io.Reads) (hwrites : io.Writes)
    (hopen : m.Opened st) {chunks : List (ℕ × ℕ)}
    (hchunks : ∀ chunk ∈ chunks, chunk.1 + chunk.2 ≤ m.lengths.pieceLength p)
    (hall : ∀ j < m.lengths.pieceLength p, ∃ chunk ∈ chunks, chunk.1 ≤ j ∧
      j < chunk.1 + chunk.2) :
    m.checkPiece D io (m.writeChunks io st content p chunks) p = some true ∧
      ∀ q < m.lengths.totalPieces, m.OnDisk st content q →
        m.OnDisk (m.writeChunks io st content p chunks) content q := by
  obtain ⟨hopen', hbytes⟩ := writeChunks_byteAt hm hmade hp hwrites hchunks hopen
  have hthere : ∀ q < m.lengths.totalPieces, ∀ j < m.lengths.pieceLength q,
      m.pieceOffset q + j < content.length := fun q hq j hj =>
    lt_of_lt_of_le (Nat.add_lt_add_left hj _) (hmade.length ▸ hm.fits hq)
  refine ⟨checkPiece_of_onDisk hm hmade hp hreads hopen' fun j hj => ?_,
    fun q hq h j hj => hbytes _ (hthere q hq j hj) (Or.inr (h j hj))⟩
  obtain ⟨chunk, hmem, hle, hlt⟩ := hall j hj
  exact hbytes _ (hthere p hp j hj) (Or.inl ⟨chunk, hmem, by omega, by omega⟩)

/-! ### Two files with a gap -/

/-- An operating system that takes and gives what it is asked for. -/
def willing : FileIo where
  refuses _ _ _ := false
  takes _ _ n := some n

/-- What the files and the gap between them are, one after another. -/
def gapped : Bytes := [0x61, 0x62, 0x00, 0x63, 0x64]

/-- One piece, with the first file, a gap and the second file in it. -/
def twoFiles : TorrentInfo where
  lengths := {
    totalPieces := 1
    pieceLength := fun _ => 5
    chunksPerPiece := fun _ => 1
    chunkInfo := fun _ start len => if start = 0 ∧ len = 5 then some 0 else none
    sizeOfPieceInFile := fun _ _ len => len }
  pieceOffset p := 5 * p
  fileInfos := [⟨0, 0, 1, false, 2⟩, ⟨2, 0, 1, true, 1⟩, ⟨3, 0, 1, false, 2⟩]
  pieces := [ofNumber 20 0xcf76bf81edbf067731a98c6b7d2eb28824d38027]

/-- The digests, with that of the piece, whose SHA-1 is listed by hand. -/
def gappedDigests : Digests where
  blake3 := sampleDigests.blake3
  sha256 := sampleDigests.sha256
  sha1 := tabulated [(gapped, ofNumber 20 0xcf76bf81edbf067731a98c6b7d2eb28824d38027)]

theorem twoFiles_tiled : twoFiles.Tiled := by
  refine .of_one rfl rfl rfl (Nat.zero_lt_succ 4) fun p start len k h => ?_
  simp only [twoFiles] at h ⊢
  split at h
  · rename_i hchunk
    rw [hchunk.1, hchunk.2]
  · cases h

theorem twoFiles_madeOf : twoFiles.MadeOf gappedDigests gapped where
  hashes p h := by
    obtain rfl : p = 0 := Nat.lt_one_iff.mp h
    decide
  length := rfl
  padding x i f pos h hpadding := by
    rcases x with _ | _ | _ | _ | _ | x
    · cases h
      cases hpadding
    · cases h
      cases hpadding
    · rfl
    · cases h
      cases hpadding
    · cases h
      cases hpadding
    · rw [locate_none (Nat.le_add_left 5 x)] at h
      cases h

/-- Both files are right once the piece was written, its end first and one byte of it twice. -/
theorem two_files_written :
    twoFiles.checkPiece gappedDigests willing (twoFiles.writeChunks willing
      (fun i => if i = 1 then none else some []) gapped 0 [(2, 3), (0, 3)]) 0 = some true := by
  refine (checkPiece_writeChunks twoFiles_tiled twoFiles_madeOf Nat.zero_lt_one
    (fun _ _ _ => rfl) (fun _ _ _ => rfl) ?hopen (by decide) (by decide)).1
  case hopen =>
    intro i f hmem hpadding
    simp only [files, twoFiles, List.zipIdx_cons, List.zipIdx_nil, List.mem_cons,
      Prod.mk.injEq, List.not_mem_nil, or_false] at hmem
    rcases hmem with ⟨rfl, rfl⟩ | ⟨rfl, rfl⟩ | ⟨rfl, rfl⟩
    · exact Option.some_ne_none _
    · cases hpadding
    · exact Option.some_ne_none _

end TorrentInfo

end Atlas
