import Atlas.Segmented
import Atlas.Tiling

/-!
# The ranges of a segmented download

A large file is fetched over several connections, each of which owns a range of it. The
ranges are made by a loop over numbers of 64 bits, before anything is allocated, from a size
that a manifest declares and nobody bounds. `segmentRanges_tile_iff` says when the loop ends
with ranges that tile the file: if full ranges, as many as it takes to cover the file, end
below 2^64. Otherwise the end of the last one wraps around, and the loop goes back to the
start of the file.
-/

namespace Atlas

/-- The loop that makes the ranges, from a start on: `e = (s + seg).min(total)`, with an
addition that wraps around. -/
def segmentLoop (total seg : ℕ) : ℕ → ℕ → Option (List (ℕ × ℕ))
  | 0, _ => none
  | fuel + 1, s =>
    if s < total then
      let e := min ((s + seg) % 2 ^ 64) total
      (segmentLoop total seg fuel e).map ((s, e) :: ·)
    else some []

/-- The length of a segment, of a file that is fetched over `n` connections. -/
def segmentLength (total n : ℕ) : ℕ := divCeil total n

/-- **The loop ends with ranges that tile the file**, after some number of turns. -/
def RangesTile (total n : ℕ) : Prop :=
  ∃ fuel ranges, segmentLoop total (segmentLength total n) fuel 0 = some ranges ∧
    Tiles 0 total ranges

variable {total seg : ℕ}

/-- Where nothing wraps around, the ranges are those of unbounded numbers. -/
theorem segmentLoop_eq (hseg : 0 < seg) {s : ℕ}
    (hbound : s + divCeil (total - s) seg * seg < 2 ^ 64) :
    ∃ fuel, segmentLoop total seg fuel s = some (segmentRanges total seg hseg s) := by
  -- on the recursion of the ranges: below the bound no addition wraps, so the 64-bit loop takes the
  -- same steps
  induction s using segmentRanges.induct total seg hseg with
  | case1 s hs ih =>
    have hrest : 0 < total - s := Nat.sub_pos_of_lt hs
    have hfirst : s + seg < 2 ^ 64 := by
      have hle : 1 * seg ≤ divCeil (total - s) seg * seg :=
        Nat.mul_le_mul_right _ (divCeil_pos hrest hseg)
      omega
    have hnext : min (s + seg) total +
        divCeil (total - min (s + seg) total) seg * seg < 2 ^ 64 := by
      -- the last range is cut at the total; before it, one segment less is needed from the next
      -- start
      by_cases hlast : total - s ≤ seg
      · have hmin : min (s + seg) total = total := by omega
        have hzero : divCeil (total - total) seg = 0 := by
          rw [Nat.sub_self]
          unfold divCeil
          rw [Nat.zero_div, Nat.zero_mod]
          rfl
        rw [hmin, hzero]
        omega
      · have hmin : min (s + seg) total = s + seg := by omega
        have hstep : divCeil (total - s) seg = divCeil (total - (s + seg)) seg + 1 := by
          rw [← divCeil_add hseg]
          congr 1
          omega
        rw [hstep, Nat.succ_mul] at hbound
        rw [hmin]
        omega
    obtain ⟨fuel, hfuel⟩ := ih hnext
    refine ⟨fuel + 1, ?_⟩
    rw [segmentLoop, if_pos hs, segmentRanges, if_pos hs]
    dsimp only
    rw [Nat.mod_eq_of_lt hfirst, hfuel]
    rfl
  | case2 s hs =>
    refine ⟨1, ?_⟩
    rw [segmentLoop, if_neg hs, segmentRanges, if_neg hs]

/-- Those tile the file. -/
theorem tiles_segmentRanges (hseg : 0 < seg) {s : ℕ} (hs : s ≤ total) :
    Tiles s total (segmentRanges total seg hseg s) := by
  induction s using segmentRanges.induct total seg hseg with
  | case1 s hlt ih =>
    rw [segmentRanges, if_pos hlt]
    refine ⟨rfl, ?_, ih (Nat.min_le_right _ _)⟩
    show s < min (s + seg) total
    omega
  | case2 s hlt =>
    rw [segmentRanges, if_neg hlt]
    exact Nat.le_antisymm hs (Nat.le_of_not_lt hlt)

/-- Where the ranges tile the file, nothing wrapped around. -/
theorem bound_of_tiles (hseg : 0 < seg) (hlt : seg < 2 ^ 64) (htotal : total < 2 ^ 64)
    {fuel s : ℕ} {ranges : List (ℕ × ℕ)} (hloop : segmentLoop total seg fuel s = some ranges)
    (htiles : Tiles s total ranges) : s + divCeil (total - s) seg * seg < 2 ^ 64 := by
  induction fuel generalizing s ranges with
  | zero => cases hloop
  | succ fuel ih =>
    rw [segmentLoop] at hloop
    by_cases hs : s < total
    · rw [if_pos hs] at hloop
      obtain ⟨rest, hrest, rfl⟩ := Option.map_eq_some_iff.mp hloop
      obtain ⟨-, hgrows, htail⟩ := htiles
      have hnowrap : s + seg < 2 ^ 64 := by
        -- an end that wrapped around lies before the start
        by_contra hwrap
        have hwrapped : (s + seg) % 2 ^ 64 = s + seg - 2 ^ 64 := by
          rw [Nat.mod_eq_sub_mod (Nat.le_of_not_lt hwrap), Nat.mod_eq_of_lt]
          omega
        have hbefore : s < min ((s + seg) % 2 ^ 64) total := hgrows
        rw [hwrapped] at hbefore
        omega
      rw [Nat.mod_eq_of_lt hnowrap] at hrest htail
      by_cases hlast : total - s ≤ seg
      · rw [divCeil_of_le (Nat.sub_pos_of_lt hs) hlast, Nat.one_mul]
        exact hnowrap
      · have hmin : min (s + seg) total = s + seg := by omega
        rw [hmin] at hrest htail
        have hnext := ih hrest htail
        have hstep : divCeil (total - s) seg = divCeil (total - (s + seg)) seg + 1 := by
          rw [← divCeil_add hseg]
          congr 1
          omega
        rw [hstep, Nat.succ_mul]
        omega
    · have hzero : total - s = 0 := Nat.sub_eq_zero_of_le (Nat.le_of_not_lt hs)
      have heq : s = total := Nat.le_antisymm htiles.le (Nat.le_of_not_lt hs)
      rw [hzero]
      unfold divCeil
      rw [Nat.zero_div, Nat.zero_mod, if_neg (Nat.lt_irrefl 0), Nat.add_zero, Nat.zero_mul]
      omega

/-- **The ranges tile the file exactly if full ranges that cover it end below 2^64.** -/
theorem segmentRanges_tile_iff {total n : ℕ} (htotal : total < 2 ^ 64) (hn : 2 ≤ n) :
    RangesTile total n ↔
      divCeil total (segmentLength total n) * segmentLength total n < 2 ^ 64 := by
  obtain rfl | hpos := Nat.eq_zero_or_pos total
  · have hempty : segmentLength 0 n = 0 := by
      unfold segmentLength divCeil
      rw [Nat.zero_div, Nat.zero_mod]
      rfl
    rw [hempty]
    exact iff_of_true ⟨1, [], rfl, rfl⟩ (by decide)
  have hseg : 0 < segmentLength total n := divCeil_pos hpos (by omega)
  have hlt : segmentLength total n < 2 ^ 64 := by
    unfold segmentLength
    rw [divCeil_eq (by omega)]
    refine Nat.lt_of_le_of_lt ?_ htotal
    rw [Nat.div_le_iff_le_mul_add_pred (by omega)]
    have hmul : 1 * total ≤ n * total := Nat.mul_le_mul_right _ (by omega)
    omega
  constructor
  · rintro ⟨fuel, ranges, hloop, htiles⟩
    have hbound := bound_of_tiles hseg hlt htotal hloop htiles
    rw [Nat.zero_add, Nat.sub_zero] at hbound
    exact hbound
  · intro hbound
    have hstart : 0 + divCeil (total - 0) (segmentLength total n) * segmentLength total n <
        2 ^ 64 := by
      rw [Nat.zero_add, Nat.sub_zero]
      exact hbound
    obtain ⟨fuel, hloop⟩ := segmentLoop_eq hseg hstart
    exact ⟨fuel, _, hloop, tiles_segmentRanges hseg (Nat.zero_le _)⟩

/-- 64 MiB and a byte, over two connections. -/
theorem small_ranges_tile : RangesTile (2 * SEGMENT_MIN_BYTES + 1) 2 :=
  (segmentRanges_tile_iff (by decide) (by decide)).mpr (by decide)

/-- **The largest size that can be declared, over two connections**, is split without
end: the second range ends where the first one starts. -/
theorem segmentLoop_endless :
    (∀ fuel, segmentLoop (2 ^ 64 - 1) (segmentLength (2 ^ 64 - 1) 2) fuel 0 = none) ∧
      ¬ RangesTile (2 ^ 64 - 1) 2 := by
  have hseg : segmentLength (2 ^ 64 - 1) 2 = 2 ^ 63 := by decide
  have hboth (fuel : ℕ) : segmentLoop (2 ^ 64 - 1) (2 ^ 63) fuel 0 = none ∧
      segmentLoop (2 ^ 64 - 1) (2 ^ 63) fuel (2 ^ 63) = none := by
    induction fuel with
    | zero => exact ⟨rfl, rfl⟩
    | succ fuel ih =>
      have hfirst : min ((0 + 2 ^ 63) % 2 ^ 64) (2 ^ 64 - 1) = 2 ^ 63 := by decide
      have hsecond : min ((2 ^ 63 + 2 ^ 63) % 2 ^ 64) (2 ^ 64 - 1) = 0 := by decide
      rw [segmentLoop, if_pos (by decide), segmentLoop, if_pos (by decide), hfirst, hsecond]
      dsimp only
      rw [ih.1, ih.2]
      exact ⟨rfl, rfl⟩
  rw [hseg]
  refine ⟨fun fuel => (hboth fuel).1, ?_⟩
  rintro ⟨fuel, ranges, hloop, -⟩
  rw [hseg, (hboth fuel).1] at hloop
  cases hloop

end Atlas
