import Sightline.Render
import Mathlib.Data.UInt
import Mathlib.Data.List.Range

/-! How tiles lie in a picture. Along one side they start at the multiples of their size that lie inside, so a
place of the side is in the tile that starts at the last multiple before it; the tile that sticks out is cut
off. Every pixel is therefore in some tile, and no tile leaves the picture, in whatever order the tiles come.
Inside a tile pixels are numbered row by row, and the number of a pixel is found again by division. -/
namespace Sightline.Tile

def covering (size length : Nat) : Nat := (length + (size - 1)) / size

theorem coveringNone {size : Nat} (positive : 0 < size) : covering size 0 = 0 :=
  Nat.div_eq_of_lt (by omega)

theorem coveringMore {size length : Nat} (positive : 0 < size) (some : 0 < length) :
    covering size length = covering size (length - size) + 1 := by
  by_cases last : length ≤ size
  · rw [Nat.sub_eq_zero_of_le last,coveringNone positive]
    exact Nat.div_eq_of_lt_le (by omega) (by omega)
  · rw [covering,covering,← Nat.add_div_right _ positive]
    congr 1
    omega

theorem belowCovering {size length i : Nat} (positive : 0 < size) :
    i < covering size length ↔ size * i < length := by
  rw [covering,Nat.lt_div_iff_mul_lt positive,Nat.mul_comm]
  omega

theorem startsRange {size limit x : UInt32} {positive : 0 < size.toNat} {xs : List UInt32}
    (stepped : starts size limit x positive = .ok xs) : xs.map UInt32.toNat =
      List.range' x.toNat (covering size.toNat (limit.toNat - x.toNat)) size.toNat := by
  induction x using starts.induct size limit positive generalizing xs with
  | case1 x inside fits ih =>
    rw [starts,dif_pos inside,dif_pos fits] at stepped
    obtain ⟨rest,later,same⟩ := Fault.bindOk stepped
    cases Except.ok.inj same
    have next : (x + size).toNat = x.toNat + size.toNat := by
      rw [UInt32.toNat_add]
      exact Nat.mod_eq_of_lt fits
    rw [List.map_cons,ih later,next,coveringMore positive (Nat.sub_pos_of_lt inside),List.range'_succ,
      Nat.sub_sub]
  | case2 x inside wraps =>
    rw [starts,dif_pos inside,dif_neg wraps] at stepped
    contradiction
  | case3 x outside =>
    rw [starts,dif_neg outside] at stepped
    cases Except.ok.inj stepped
    rw [Nat.sub_eq_zero_of_le (Nat.not_lt.mp outside),coveringNone positive]
    rfl

theorem startsFits {size limit : UInt32} {positive : 0 < size.toNat} (x : UInt32) :
    (∃ xs, starts size limit x positive = .ok xs) ↔
      x.toNat + covering size.toNat (limit.toNat - x.toNat) * size.toNat < 4294967296 := by
  induction x using starts.induct size limit positive with
  | case1 x inside fits ih =>
    have next : (x + size).toNat = x.toNat + size.toNat := by
      rw [UInt32.toNat_add]
      exact Nat.mod_eq_of_lt fits
    rw [next,← Nat.sub_sub] at ih
    rw [coveringMore positive (Nat.sub_pos_of_lt inside),Nat.succ_mul,Nat.add_comm (_ * _),← Nat.add_assoc,← ih,
      starts,dif_pos inside,dif_pos fits]
    constructor
    · rintro ⟨xs,stepped⟩
      obtain ⟨rest,later,_⟩ := Fault.bindOk stepped
      exact ⟨rest,later⟩
    · rintro ⟨rest,later⟩
      rw [later]
      exact ⟨_,rfl⟩
  | case2 x inside wraps =>
    rw [coveringMore positive (Nat.sub_pos_of_lt inside),Nat.succ_mul,starts,dif_pos inside,dif_neg wraps]
    refine ⟨fun ⟨_,bad⟩ => (nomatch bad),fun fits => ?_⟩
    omega
  | case3 x outside =>
    have word := x.toNat_lt
    rw [Nat.sub_eq_zero_of_le (Nat.not_lt.mp outside),coveringNone positive,starts,dif_neg outside]
    exact ⟨fun _ => by omega,fun _ => ⟨_,rfl⟩⟩

theorem coveringBound {size length : Nat} (positive : 0 < size) : covering size length * size < length + size := by
  have whole := Nat.div_mul_le_self (length + (size - 1)) size
  unfold covering
  omega

section
variable {size limit width height : UInt32} {positive : 0 < size.toNat} {xs : List UInt32}

theorem startsMem (stepped : starts size limit 0 positive = .ok xs) (start : Nat) :
    start ∈ xs.map UInt32.toNat ↔ ∃ i, start = size.toNat * i ∧ size.toNat * i < limit.toNat := by
  rw [startsRange stepped,List.mem_range',UInt32.toNat_zero,Nat.sub_zero]
  simp only [belowCovering positive,Nat.zero_add]
  exact exists_congr fun i => and_comm

theorem startsInside (stepped : starts size limit 0 positive = .ok xs) : ∀ x ∈ xs, x.toNat < limit.toNat := by
  intro x member
  obtain ⟨i,same,below⟩ := (startsMem stepped x.toNat).mp (List.mem_map_of_mem member)
  omega

theorem startsCover (stepped : starts size limit 0 positive = .ok xs) {place : Nat}
    (inside : place < limit.toNat) : ∃ x ∈ xs, x.toNat ≤ place ∧ place < x.toNat + size.toNat := by
  have before := Nat.mul_div_le place size.toNat
  have after := Nat.lt_mul_div_succ place positive
  rw [Nat.mul_add,Nat.mul_one] at after
  have start := (startsMem stepped (size.toNat * (place / size.toNat))).mpr ⟨_,rfl,by omega⟩
  obtain ⟨x,member,same⟩ := List.mem_map.mp start
  exact ⟨x,member,by omega,by omega⟩

def cell (size width height y x : UInt32) : Tile := ⟨x,y,min size (width - x),min size (height - y),0⟩

theorem rowCells (stepped : starts size width 0 positive = .ok xs) (y : UInt32) :
    row size width height y positive = .ok (xs.map (cell size width height y)) := by
  rw [row,stepped]
  rfl

theorem rowsCells (stepped : starts size width 0 positive = .ok xs) (ys : List UInt32) :
    (ys.mapM fun y => row size width height y positive) =
      .ok (ys.map fun y => xs.map (cell size width height y)) := by
  simp only [rowCells stepped]
  exact List.mapM_pure

theorem readingCells {ts : List Tile} (read : reading size width height positive = .ok ts) :
    ∃ xs ys, starts size height 0 positive = .ok ys ∧
      (ys ≠ [] → starts size width 0 positive = .ok xs) ∧
      ts = ys.flatMap fun y => xs.map (cell size width height y) := by
  obtain ⟨ys,stepped,rows⟩ := Fault.bindOk read
  obtain ⟨rows,mapped,same⟩ := Fault.bindOk rows
  cases Except.ok.inj same
  cases across : starts size width 0 positive with
  | error fault =>
    cases ys with
    | nil =>
      cases Except.ok.inj mapped
      exact ⟨[],[],stepped,fun some => (some rfl).elim,rfl⟩
    | cons y rest =>
      rw [List.mapM_cons,row,across] at mapped
      contradiction
  | ok xs =>
    cases Except.ok.inj (mapped.symm.trans (rowsCells across ys))
    exact ⟨xs,ys,stepped,fun _ => rfl,rfl⟩

end

structure Holds (t : Tile) (x y : Nat) : Prop where
  left : t.x.toNat ≤ x
  right : x < t.x.toNat + t.width.toNat
  above : t.y.toNat ≤ y
  below : y < t.y.toNat + t.height.toNat

structure Inside (t : Tile) (width height : Nat) : Prop where
  right : t.x.toNat + t.width.toNat ≤ width
  bottom : t.y.toNat + t.height.toNat ≤ height

section
variable {size width height : UInt32} {x y : UInt32}

theorem cellWidth (inside : x.toNat < width.toNat) :
    (cell size width height y x).width.toNat = min size.toNat (width.toNat - x.toNat) := by
  rw [cell,UInt32.toNat_min,UInt32.toNat_sub_of_le _ _ (UInt32.le_iff_toNat_le.mpr (Nat.le_of_lt inside))]

theorem cellHeight (inside : y.toNat < height.toNat) :
    (cell size width height y x).height.toNat = min size.toNat (height.toNat - y.toNat) := by
  rw [cell,UInt32.toNat_min,UInt32.toNat_sub_of_le _ _ (UInt32.le_iff_toNat_le.mpr (Nat.le_of_lt inside))]

theorem cellInside (inX : x.toNat < width.toNat) (inY : y.toNat < height.toNat) :
    (cell size width height y x).Inside width.toNat height.toNat := by
  constructor
  · rw [cellWidth inX]
    show x.toNat + _ ≤ _
    omega
  · rw [cellHeight inY]
    show y.toNat + _ ≤ _
    omega

theorem cellHolds (inX : x.toNat < width.toNat) (inY : y.toNat < height.toNat) {p q : Nat}
    (across : x.toNat ≤ p ∧ p < x.toNat + size.toNat) (down : y.toNat ≤ q ∧ q < y.toNat + size.toNat)
    (inP : p < width.toNat) (inQ : q < height.toNat) : (cell size width height y x).Holds p q := by
  refine ⟨across.1,?_,down.1,?_⟩
  · rw [cellWidth inX]
    show p < x.toNat + _
    omega
  · rw [cellHeight inY]
    show q < y.toNat + _
    omega

end

def bare (t : Tile) : Tile := { t with index := 0 }

section
variable {width height size : UInt32} {tiles : List Tile}

theorem numberBare (ts : List Tile) : (number ts).map bare = ts.map bare := by
  refine List.ext_getElem (by simp [number]) fun i here there => ?_
  simp [number,bare]

theorem gridCells (cut : grid width height size = .ok tiles) :
    ∃ xs ys, starts (max size 1) height 0 (sizePositive size) = .ok ys ∧
      (ys ≠ [] → starts (max size 1) width 0 (sizePositive size) = .ok xs) ∧
      (tiles.map bare).Perm (ys.flatMap fun y => xs.map (cell (max size 1) width height y)) := by
  obtain ⟨ts,read,same⟩ := Fault.bindOk cut
  obtain ⟨xs,ys,down,across,rfl⟩ := readingCells read
  cases Except.ok.inj same
  refine ⟨xs,ys,down,across,?_⟩
  rw [numberBare]
  refine ((List.mergeSort_perm _ _).map bare).trans (.of_eq ?_)
  simp only [List.map_flatMap,List.map_map]
  rfl

/- Without a row nobody looks at where tiles start along it. -/
theorem gridFits : (∃ tiles, grid width height size = .ok tiles) ↔
    covering (max size 1).toNat height.toNat * (max size 1).toNat < 4294967296 ∧
      (0 < height.toNat → covering (max size 1).toNat width.toNat * (max size 1).toNat < 4294967296) := by
  have alongX := @startsFits (max size 1) width (sizePositive size) 0
  have alongY := @startsFits (max size 1) height (sizePositive size) 0
  rw [UInt32.toNat_zero,Nat.sub_zero,Nat.zero_add] at alongX alongY
  rw [← alongX,← alongY]
  constructor
  · rintro ⟨tiles,cut⟩
    obtain ⟨xs,ys,down,across,_⟩ := gridCells cut
    refine ⟨⟨ys,down⟩,fun tall => ⟨xs,across ?_⟩⟩
    obtain ⟨y,member,_⟩ := startsCover down tall
    exact List.ne_nil_of_mem member
  · rintro ⟨⟨ys,down⟩,rows⟩
    cases ys with
    | nil =>
      simp only [grid,reading,down,bind,Except.bind]
      exact ⟨_,rfl⟩
    | cons y rest =>
      obtain ⟨xs,across⟩ := rows (Nat.zero_lt_of_lt (startsInside down y List.mem_cons_self))
      simp only [grid,reading,down,rowsCells across,bind,Except.bind]
      exact ⟨_,rfl⟩

theorem gridAnswers (roomX : width.toNat + (max size 1).toNat ≤ 4294967296)
    (roomY : height.toNat + (max size 1).toNat ≤ 4294967296) : ∃ tiles, grid width height size = .ok tiles := by
  have boundX := @coveringBound _ width.toNat (sizePositive size)
  have boundY := @coveringBound _ height.toNat (sizePositive size)
  exact gridFits.mpr ⟨Nat.lt_of_lt_of_le boundY roomY,fun _ => Nat.lt_of_lt_of_le boundX roomX⟩

theorem gridCell (cut : grid width height size = .ok tiles) {t : Tile} (member : t ∈ tiles) :
    bare t = cell (max size 1) width height t.y t.x ∧
      (t.x.toNat < width.toNat ∧ ∃ i, t.x.toNat = (max size 1).toNat * i) ∧
      t.y.toNat < height.toNat ∧ ∃ j, t.y.toNat = (max size 1).toNat * j := by
  obtain ⟨xs,ys,down,across,same⟩ := gridCells cut
  obtain ⟨y,inY,found⟩ := List.mem_flatMap.mp (same.mem_iff.mp (List.mem_map_of_mem (f := bare) member))
  obtain ⟨x,inX,spelled⟩ := List.mem_map.mp found
  obtain rfl : x = t.x := congrArg Tile.x spelled
  obtain rfl : y = t.y := congrArg Tile.y spelled
  have across := across (List.ne_nil_of_mem inY)
  obtain ⟨i,columns,_⟩ := (startsMem across t.x.toNat).mp (List.mem_map_of_mem inX)
  obtain ⟨j,rows,_⟩ := (startsMem down t.y.toNat).mp (List.mem_map_of_mem inY)
  exact ⟨spelled.symm,⟨startsInside across _ inX,i,columns⟩,startsInside down _ inY,j,rows⟩

theorem gridInside (cut : grid width height size = .ok tiles) :
    ∀ t ∈ tiles, t.Inside width.toNat height.toNat := by
  intro t member
  obtain ⟨same,⟨inX,_⟩,inY,_⟩ := gridCell cut member
  have fits : (bare t).Inside width.toNat height.toNat := same ▸ cellInside inX inY
  exact ⟨fits.right,fits.bottom⟩

theorem gridSides (cut : grid width height size = .ok tiles) {t : Tile} (member : t ∈ tiles) :
    t.width.toNat = min (max size 1).toNat (width.toNat - t.x.toNat) ∧
      t.height.toNat = min (max size 1).toNat (height.toNat - t.y.toNat) := by
  obtain ⟨same,⟨inX,_⟩,inY,_⟩ := gridCell cut member
  have wide : (bare t).width.toNat = _ := same ▸ cellWidth inX
  have tall : (bare t).height.toNat = _ := same ▸ cellHeight inY
  exact ⟨wide,tall⟩

theorem gridCovers (cut : grid width height size = .ok tiles) {p q : Nat} (inP : p < width.toNat)
    (inQ : q < height.toNat) : ∃ t ∈ tiles, t.Holds p q := by
  obtain ⟨xs,ys,down,across,same⟩ := gridCells cut
  obtain ⟨y,inY,belowY⟩ := startsCover down inQ
  have across := across (List.ne_nil_of_mem inY)
  obtain ⟨x,inX,belowX⟩ := startsCover across inP
  have member : cell (max size 1) width height y x ∈
      ys.flatMap fun y => xs.map (cell (max size 1) width height y) :=
    List.mem_flatMap.mpr ⟨y,inY,List.mem_map_of_mem inX⟩
  obtain ⟨t,found,bared⟩ := List.mem_map.mp (same.mem_iff.mpr member)
  have holds : (bare t).Holds p q :=
    bared ▸ cellHolds (startsInside across x inX) (startsInside down y inY) belowX belowY inP inQ
  exact ⟨t,found,holds.left,holds.right,holds.above,holds.below⟩

end

theorem insideCounted {t : Tile} {width height : Nat} (fits : t.Inside width height)
    (few : width * height < 4294967296) : ∃ n, t.pixelCount = .ok n := by
  have right := fits.right
  have bottom := fits.bottom
  have within : t.width.toNat * t.height.toNat ≤ width * height := Nat.mul_le_mul (by omega) (by omega)
  exact ⟨_,if_pos (Nat.lt_of_le_of_lt within few)⟩

theorem rowParts {wide p : Nat} (short : p < wide) (q : Nat) :
    (wide * q + p) % wide = p ∧ (wide * q + p) / wide = q := by
  rw [Nat.mul_add_mod,Nat.mod_eq_of_lt short,Nat.mul_add_div (Nat.zero_lt_of_lt short),Nat.div_eq_of_lt short,
    Nat.add_zero]
  exact ⟨rfl,rfl⟩

def stepAt (t : Tile) (i : Nat) : UInt32 × UInt32 :=
  ((i % t.width.toNat).toUInt32,(i / t.width.toNat).toUInt32)

theorem stepsNumbered (t : Tile) : t.steps = (List.range (t.height.toNat * t.width.toNat)).map t.stepAt := by
  unfold steps
  generalize t.height.toNat = rows
  induction rows with
  | zero => simp
  | succ rows ih =>
    rw [List.range_succ,List.flatMap_append,ih,Nat.succ_mul,List.range_add,List.map_append,List.map_map]
    congr 1
    rw [List.flatMap_singleton]
    refine List.map_congr_left fun x inside => ?_
    obtain ⟨column,row⟩ := rowParts (List.mem_range.mp inside) rows
    rw [Function.comp_apply,stepAt,Nat.mul_comm,column,row]

def pixel (t : Tile) (i : Nat) : UInt32 × UInt32 := (t.x + (t.stepAt i).1,t.y + (t.stepAt i).2)

section
variable {t : Tile} {width height : UInt32} {i : Nat}

theorem stepInside (inside : i < t.height.toNat * t.width.toNat) :
    i % t.width.toNat < t.width.toNat ∧ i / t.width.toNat < t.height.toNat := by
  have wide : 0 < t.width.toNat := Nat.pos_of_mul_pos_left (Nat.zero_lt_of_lt inside)
  exact ⟨Nat.mod_lt i wide,(Nat.div_lt_iff_lt_mul wide).mpr inside⟩

theorem stepAcross (inside : i < t.height.toNat * t.width.toNat) :
    (t.stepAt i).1.toNat = i % t.width.toNat :=
  UInt32.toNat_ofNat_of_lt' (Nat.lt_trans (stepInside inside).1 t.width.toNat_lt)

theorem stepDown (inside : i < t.height.toNat * t.width.toNat) :
    (t.stepAt i).2.toNat = i / t.width.toNat :=
  UInt32.toNat_ofNat_of_lt' (Nat.lt_trans (stepInside inside).2 t.height.toNat_lt)

theorem addAcross (fits : t.Inside width.toNat height.toNat) (inside : i < t.height.toNat * t.width.toNat) :
    Fault.addWords t.x (t.stepAt i).1 = .ok (t.pixel i).1 := by
  have short := (stepInside inside).1
  have right := fits.right
  have bound := width.toNat_lt
  exact if_pos (by rw [stepAcross inside]; omega)

theorem addDown (fits : t.Inside width.toNat height.toNat) (inside : i < t.height.toNat * t.width.toNat) :
    Fault.addWords t.y (t.stepAt i).2 = .ok (t.pixel i).2 := by
  have short := (stepInside inside).2
  have bottom := fits.bottom
  have bound := height.toNat_lt
  exact if_pos (by rw [stepDown inside]; omega)

theorem pixelPlace (fits : t.Inside width.toNat height.toNat) (inside : i < t.height.toNat * t.width.toNat) :
    (t.pixel i).1.toNat = t.x.toNat + i % t.width.toNat ∧
      (t.pixel i).2.toNat = t.y.toNat + i / t.width.toNat := by
  rw [Fault.addWordsOk (addAcross fits inside),Fault.addWordsOk (addDown fits inside),stepAcross inside,
    stepDown inside]
  exact ⟨rfl,rfl⟩

theorem pixelHolds (fits : t.Inside width.toNat height.toNat) (inside : i < t.height.toNat * t.width.toNat) :
    t.Holds (t.pixel i).1.toNat (t.pixel i).2.toNat := by
  obtain ⟨across,down⟩ := pixelPlace fits inside
  obtain ⟨short,low⟩ := stepInside inside
  exact ⟨by omega,by omega,down ▸ Nat.le_add_right _ _,by omega⟩

theorem holdsInside {x y : Nat} (fits : t.Inside width.toNat height.toNat) (holds : t.Holds x y) :
    x < width.toNat ∧ y < height.toNat :=
  ⟨Nat.lt_of_lt_of_le holds.right fits.right,Nat.lt_of_lt_of_le holds.below fits.bottom⟩

theorem pixelSame (fits : t.Inside width.toNat height.toNat) (inside : i < t.height.toNat * t.width.toNat)
    {j : Nat} (insideJ : j < t.height.toNat * t.width.toNat) (same : t.pixel i = t.pixel j) : i = j := by
  obtain ⟨across,down⟩ := pixelPlace fits inside
  obtain ⟨acrossJ,downJ⟩ := pixelPlace fits insideJ
  rw [same] at across down
  have columns : i % t.width.toNat = j % t.width.toNat := by omega
  have rows : i / t.width.toNat = j / t.width.toNat := by omega
  rw [← Nat.div_add_mod i t.width.toNat,rows,columns,Nat.div_add_mod]

theorem pixelHeld (fits : t.Inside width.toNat height.toNat) {x y : UInt32} (holds : t.Holds x.toNat y.toNat) :
    ∃ i, i < t.height.toNat * t.width.toNat ∧ t.pixel i = (x,y) := by
  obtain ⟨left,right,above,below⟩ := holds
  obtain ⟨p,across⟩ := Nat.exists_eq_add_of_le left
  obtain ⟨q,down⟩ := Nat.exists_eq_add_of_le above
  have short : p < t.width.toNat := by omega
  obtain ⟨column,row⟩ := rowParts short q
  have inside : t.width.toNat * q + p < t.height.toNat * t.width.toNat := by
    rw [← Nat.div_lt_iff_lt_mul (Nat.zero_lt_of_lt short),row]
    omega
  obtain ⟨pixelAcross,pixelDown⟩ := pixelPlace fits inside
  rw [column,← across] at pixelAcross
  rw [row,← down] at pixelDown
  exact ⟨_,inside,Prod.ext (UInt32.toNat_inj.mp pixelAcross) (UInt32.toNat_inj.mp pixelDown)⟩

end
end Sightline.Tile
