import Mathlib.Data.List.Basic

/-!
# Files with holes

A file is the list of its cells. Two operations make a cell nobody wrote:
growing a file (`setLen`) and writing past its end (`writeAt`). Both take
the cell they put there, so that what a hole looks like is up to the user
of this file: a zero byte, a marker, an absent value.

A write that starts at the end of the file is an append
(`writeAt_length_self`).
-/

namespace SparseFile

variable {α : Type}

/-- Cut a file to `n` cells, or grow it to `n` cells with holes. -/
def setLen (hole : α) (n : ℕ) (f : List α) : List α :=
  f.take n ++ List.replicate (n - f.length) hole

/-- Write `data` at offset `off`, over what is there; a gap between the end
of the file and `off` becomes holes. Writing nothing changes nothing. -/
def writeAt (hole : α) (off : ℕ) (data f : List α) : List α :=
  if data = [] then f
  else setLen hole off f ++ data ++ f.drop (off + data.length)

@[simp] theorem length_setLen (hole : α) (n : ℕ) (f : List α) :
    (setLen hole n f).length = n := by
  rw [setLen, List.length_append, List.length_take, List.length_replicate]
  omega

@[simp] theorem setLen_zero (hole : α) (f : List α) : setLen hole 0 f = [] :=
  List.length_eq_zero_iff.mp (length_setLen hole 0 f)

/-- Cutting a file keeps a prefix of it. -/
theorem setLen_of_le (hole : α) {n : ℕ} {f : List α} (h : n ≤ f.length) :
    setLen hole n f = f.take n := by
  rw [setLen, Nat.sub_eq_zero_of_le h]
  exact List.append_nil _

@[simp] theorem setLen_length_self (hole : α) (f : List α) :
    setLen hole f.length f = f := by
  rw [setLen_of_le hole (Nat.le_refl _), List.take_length]

/-- **A write at the end of the file is an append.** -/
@[simp] theorem writeAt_length_self (hole : α) (data f : List α) :
    writeAt hole f.length data f = f ++ data := by
  unfold writeAt
  by_cases h : data = []
  · rw [if_pos h, h, List.append_nil]
  · rw [if_neg h, setLen_length_self, List.drop_eq_nil_of_le (Nat.le_add_right _ _),
      List.append_nil]

/-- A write inside the file keeps its length. -/
theorem length_writeAt (hole : α) {off : ℕ} {data f : List α}
    (h : off + data.length ≤ f.length) : (writeAt hole off data f).length = f.length := by
  unfold writeAt
  by_cases hd : data = []
  · rw [if_pos hd]
  · rw [if_neg hd, List.length_append, List.length_append, length_setLen,
      List.length_drop]
    omega

/-- A cell of a file that was cut or grown is where it was, or a hole. -/
theorem getElem?_setLen {hole : α} {n : ℕ} {f : List α} {i : ℕ} {c : α}
    (h : (setLen hole n f)[i]? = some c) : f[i]? = some c ∨ c = hole := by
  unfold setLen at h
  by_cases hi : i < (f.take n).length
  · rw [List.getElem?_append_left hi] at h
    rw [List.length_take] at hi
    rw [List.getElem?_take_of_lt (by omega)] at h
    exact Or.inl h
  · rw [List.getElem?_append_right (Nat.le_of_not_lt hi)] at h
    exact Or.inr (List.eq_of_mem_replicate (List.mem_of_getElem? h))

/-- **A cell of a file that was written to** is where it was, or a hole, or was
written there. -/
theorem getElem?_writeAt {hole : α} {off : ℕ} {data f : List α} {i : ℕ} {c : α}
    (h : (writeAt hole off data f)[i]? = some c) :
    f[i]? = some c ∨ c = hole ∨ (off ≤ i ∧ data[i - off]? = some c) := by
  unfold writeAt at h
  split at h
  · exact Or.inl h
  · have hlen : (setLen hole off f ++ data).length = off + data.length := by
      rw [List.length_append, length_setLen]
    by_cases hleft : i < off
    · rw [List.append_assoc, List.getElem?_append_left (by rwa [length_setLen])] at h
      exact (getElem?_setLen h).imp id Or.inl
    · have hoff : off ≤ i := Nat.le_of_not_lt hleft
      by_cases hmid : i < off + data.length
      · rw [List.getElem?_append_left (by rwa [hlen]),
          List.getElem?_append_right (by rwa [length_setLen]), length_setLen] at h
        exact Or.inr (Or.inr ⟨hoff, h⟩)
      · rw [List.getElem?_append_right (by rw [hlen]; omega), hlen, List.getElem?_drop] at h
        rw [show off + data.length + (i - (off + data.length)) = i by omega] at h
        exact Or.inl h

/-- **A write inside the file changes the cells it covers**, and no other. -/
theorem getElem?_writeAt_of_le (hole : α) {off : ℕ} {data f : List α}
    (h : off + data.length ≤ f.length) (i : ℕ) :
    (writeAt hole off data f)[i]? =
      if off ≤ i ∧ i < off + data.length then data[i - off]? else f[i]? := by
  unfold writeAt
  by_cases hd : data = []
  · rw [if_pos hd, hd, if_neg (by rw [List.length_nil]; omega)]
  · rw [if_neg hd, setLen_of_le hole (by omega), List.append_assoc]
    have htake : (f.take off).length = off := by
      rw [List.length_take]
      omega
    by_cases hleft : i < off
    · rw [if_neg (by omega), List.getElem?_append_left (by rwa [htake]),
        List.getElem?_take_of_lt hleft]
    · rw [List.getElem?_append_right (by rw [htake]; omega), htake]
      by_cases hmid : i < off + data.length
      · rw [if_pos ⟨Nat.le_of_not_lt hleft, hmid⟩, List.getElem?_append_left (by omega)]
      · rw [if_neg (by omega), List.getElem?_append_right (by omega), List.getElem?_drop]
        congr 1
        omega

/-- **A write leaves the cells around it**, wherever it starts. -/
theorem getElem?_writeAt_of_outside {hole : α} {off : ℕ} {data f : List α} {i : ℕ} {c : α}
    (hi : i < off ∨ off + data.length ≤ i) (h : f[i]? = some c) :
    (writeAt hole off data f)[i]? = some c := by
  have hlt : i < f.length := (List.getElem?_eq_some_iff.mp h).1
  unfold writeAt
  by_cases hd : data = []
  · rwa [if_pos hd]
  · rw [if_neg hd, List.append_assoc]
    rcases hi with hi | hi
    · rw [List.getElem?_append_left (by rwa [length_setLen]), setLen,
        List.getElem?_append_left (by rw [List.length_take]; exact Nat.lt_min.mpr ⟨hi, hlt⟩),
        List.getElem?_take_of_lt hi]
      exact h
    · rw [List.getElem?_append_right (by rw [length_setLen]; omega), length_setLen,
        List.getElem?_append_right (by omega), List.getElem?_drop]
      rwa [show off + data.length + (i - off - data.length) = i by omega]

/-- The cells a write covers are what was written. -/
theorem getElem?_writeAt_add (hole : α) {off : ℕ} {data : List α} (f : List α) {j : ℕ}
    (hj : j < data.length) : (writeAt hole off data f)[off + j]? = data[j]? := by
  unfold writeAt
  rw [if_neg (List.ne_nil_of_length_pos (Nat.zero_lt_of_lt hj)), List.append_assoc,
    List.getElem?_append_right (by rw [length_setLen]; exact Nat.le_add_right _ _), length_setLen,
    Nat.add_sub_cancel_left, List.getElem?_append_left hj]

end SparseFile
