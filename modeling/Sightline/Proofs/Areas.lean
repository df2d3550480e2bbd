import Sightline.Proofs.Outward
import Sightline.Proofs.Picture
import Mathlib.Algebra.BigOperators.Ring.List

/-! The areas of tiles. The lengths that are cut off along a side add up to the side, so the areas of all tiles add up
to that of the picture, whatever its size. That sum is a count without bound, and so is the number of pixels of a
picture; the area of one tile has to fit a word. It is counted exactly where it does, and the first tile in reading
order is as large as any other, so one product says whether all tiles can be counted. -/
namespace Sightline.Tile

def area (t : Tile) : Nat := t.width.toNat * t.height.toNat

section
variable {size limit width height x : UInt32} {positive : 0 < size.toNat} {xs : List UInt32} {tiles : List Tile} {t : Tile}

theorem startsSum (stepped : starts size limit x positive = .ok xs) :
    (xs.map fun x => min size.toNat (limit.toNat - x.toNat)).sum = limit.toNat - x.toNat := by
  induction x using starts.induct size limit positive generalizing xs with
  | case1 x inside fits ih =>
    rw [starts,dif_pos inside,dif_pos fits] at stepped
    obtain ⟨rest,later,same⟩ := Fault.bindOk stepped
    cases Except.ok.inj same
    have next : (x + size).toNat = x.toNat + size.toNat := by
      rw [UInt32.toNat_add]
      exact Nat.mod_eq_of_lt fits
    rw [List.map_cons,List.sum_cons,ih later,next]
    omega
  | case2 x inside wraps =>
    rw [starts,dif_pos inside,dif_neg wraps] at stepped
    contradiction
  | case3 x outside =>
    rw [starts,dif_neg outside] at stepped
    cases Except.ok.inj stepped
    rw [Nat.sub_eq_zero_of_le (Nat.not_lt.mp outside)]
    rfl

theorem sidesSum (stepped : starts size limit 0 positive = .ok xs) :
    (xs.map fun x => min size.toNat (limit.toNat - x.toNat)).sum = limit.toNat := startsSum stepped

theorem rowArea (stepped : starts size width 0 positive = .ok xs) {y : UInt32} (inside : y.toNat < height.toNat) :
    ((xs.map (cell size width height y)).map area).sum =
      width.toNat * min size.toNat (height.toNat - y.toNat) := by
  have areas : ∀ x ∈ xs, (area ∘ cell size width height y) x =
      min size.toNat (width.toNat - x.toNat) * min size.toNat (height.toNat - y.toNat) := by
    intro x member
    rw [Function.comp_apply,area,cellWidth (startsInside stepped x member),cellHeight inside]
  rw [List.map_map,List.map_congr_left areas,List.sum_map_mul_right,sidesSum stepped]

theorem gridArea (cut : grid width height size = .ok tiles) :
    (tiles.map area).sum = width.toNat * height.toNat := by
  obtain ⟨xs,ys,down,across,same⟩ := gridCells cut
  have areas : (tiles.map area).sum = ((tiles.map bare).map area).sum := by
    rw [List.map_map]
    rfl
  have rows : ∀ y ∈ ys, (List.sum ∘ fun y => (xs.map (cell (max size 1) width height y)).map area) y =
      width.toNat * min (max size 1).toNat (height.toNat - y.toNat) := fun y member =>
    rowArea (across (List.ne_nil_of_mem member)) (startsInside down y member)
  rw [areas,(same.map area).sum_nat,List.map_flatMap,List.flatMap_def,List.sum_flatten,List.map_map,
    List.map_congr_left rows,List.sum_map_mul_left,sidesSum down]

theorem pixelCountArea (t : Tile) : (t.area < 4294967296 → ∃ n, t.pixelCount = .ok n ∧ n.toNat = t.area) ∧
    (4294967296 ≤ t.area → t.pixelCount = .error .wordOverflow) := by
  refine ⟨fun few => ?_,fun many => if_neg (Nat.not_lt.mpr many)⟩
  have counted : t.pixelCount = .ok (t.width * t.height) := if_pos few
  exact ⟨_,counted,Fault.mulWordsOk counted⟩

theorem gridLargest (cut : grid width height size = .ok tiles) : ∀ t ∈ tiles,
    t.area ≤ min (max size 1).toNat width.toNat * min (max size 1).toNat height.toNat := by
  intro t member
  obtain ⟨wide,tall⟩ := gridSides cut member
  rw [area,wide,tall]
  exact Nat.mul_le_mul (by omega) (by omega)

theorem gridCorner (cut : grid width height size = .ok tiles) (some : 0 < width.toNat * height.toNat) :
    ∃ t ∈ tiles, t.area = min (max size 1).toNat width.toNat * min (max size 1).toNat height.toNat := by
  obtain ⟨t,member,holds⟩ := gridCovers cut (Nat.pos_of_mul_pos_right some) (Nat.pos_of_mul_pos_left some)
  obtain ⟨wide,tall⟩ := gridSides cut member
  have left := holds.left
  have above := holds.above
  refine ⟨t,member,?_⟩
  rw [area,wide,tall,Nat.eq_zero_of_le_zero left,Nat.eq_zero_of_le_zero above,Nat.sub_zero,Nat.sub_zero]

end

theorem gridAreas (width height size : UInt32) (tiles : List Tile) (cut : grid width height size = .ok tiles) :
    (tiles.map area).sum = (Image.blank width height).pixels.size ∧
    (∀ t ∈ tiles, (t.area < 4294967296 → ∃ n, t.pixelCount = .ok n ∧ n.toNat = t.area) ∧
      (4294967296 ≤ t.area → t.pixelCount = .error .wordOverflow)) ∧
    ((∀ t ∈ tiles, ∃ n, t.pixelCount = .ok n) ↔
      min (max size 1).toNat width.toNat * min (max size 1).toNat height.toNat < 4294967296) := by
  refine ⟨(gridArea cut).trans (Image.blankSpans width height).whole.symm,fun t _ => pixelCountArea t,?_,?_⟩
  · intro counted
    by_cases some : 0 < width.toNat * height.toNat
    · obtain ⟨t,member,largest⟩ := gridCorner cut some
      obtain ⟨n,count⟩ := counted t member
      rw [← largest]
      refine Nat.not_le.mp fun many => ?_
      rw [(pixelCountArea t).2 many] at count
      contradiction
    · rcases Nat.mul_eq_zero.mp (Nat.eq_zero_of_not_pos some) with none | none <;> rw [none] <;> simp
  · intro few t member
    obtain ⟨n,counted,_⟩ := (pixelCountArea t).1 (Nat.lt_of_le_of_lt (gridLargest cut t member) few)
    exact ⟨n,counted⟩

theorem edgesAreas : ∃ tiles, grid 5 3 2 = .ok tiles ∧ (tiles.map area).sum = 15 ∧
    ∀ t ∈ tiles, ∃ n, t.pixelCount = .ok n := by
  obtain ⟨tiles,cut⟩ := @gridAnswers 5 3 2 (by decide) (by decide)
  obtain ⟨sum,_,counted⟩ := gridAreas 5 3 2 tiles cut
  exact ⟨tiles,cut,sum.trans (Image.blankSpans 5 3).whole,counted.mpr (by decide)⟩

/- One tile that is the whole picture, with one pixel more than a word can count. -/
theorem squareUncounted : grid 65536 65536 65536 = .ok [⟨0,0,65536,65536,0⟩] ∧
    pixelCount ⟨0,0,65536,65536,0⟩ = .error .wordOverflow ∧
    (Image.blank 65536 65536).pixels.size = 4294967296 := by
  refine ⟨?_,by decide +kernel,Array.size_replicate⟩
  decide +kernel

end Sightline.Tile
