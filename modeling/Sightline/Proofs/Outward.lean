import Sightline.Proofs.Mosaic

/-! The tiles of a picture, all of them and in their order. There is a tile for every start along a row and every
start of a row, they are cut off at the edges and never empty, and the division of a pixel's place by the size of
a tile names the one tile it lies in. Sorting by the distance from the center keeps tiles that are equally far
away as they were, which is row by row. The one thing that can go wrong is the step past the last tile, which
must fit a word even though no tile starts there. -/
namespace Sightline.Tile

def outwardKey (width height : UInt32) (t : Tile) : Int := Scalar.sortKey (eccentricity width height t)

def ReadsBefore (s t : Tile) : Prop := s.y < t.y ∨ s.y = t.y ∧ s.x < t.x

def OutwardBefore (width height : UInt32) (s t : Tile) : Prop :=
  outwardKey width height s < outwardKey width height t ∨
    outwardKey width height s = outwardKey width height t ∧ ReadsBefore s t

section
variable {α : Type} (key : α → Int) {before : α → α → Prop} {xs : List α}

def byKey (a b : α) : Bool := decide (key a ≤ key b)

theorem byKeyTrans (a b c : α) (first : byKey key a b = true) (second : byKey key b c = true) :
    byKey key a c = true :=
  decide_eq_true (Int.le_trans (of_decide_eq_true first) (of_decide_eq_true second))

theorem byKeyTotal (a b : α) : (byKey key a b || byKey key b a) = true := by
  rcases Int.le_total (key a) (key b) with below | above
  · exact Bool.or_eq_true_iff.mpr (.inl (decide_eq_true below))
  · exact Bool.or_eq_true_iff.mpr (.inr (decide_eq_true above))

theorem sortKeeps (k : Int) (xs : List α) :
    (xs.mergeSort (byKey key)).filter (key · = k) = xs.filter (key · = k) := by
  have alike : (xs.filter (key · = k)).Pairwise fun a b => byKey key a b = true := by
    refine List.pairwise_of_forall_mem_list fun a inA b inB => ?_
    have sameA := of_decide_eq_true (List.mem_filter.mp inA).2
    have sameB := of_decide_eq_true (List.mem_filter.mp inB).2
    exact decide_eq_true (by omega)
  have kept := List.sublist_mergeSort (byKeyTrans key) (byKeyTotal key) alike List.filter_sublist
  have own := kept.filter (key · = k)
  rw [List.filter_filter] at own
  simp only [Bool.and_self] at own
  exact (own.eq_of_length ((List.mergeSort_perm xs _).filter _).length_eq.symm).symm

theorem sortOrders (listed : xs.Pairwise before) : (xs.mergeSort (byKey key)).Pairwise
    fun a b => key a < key b ∨ key a = key b ∧ before a b := by
  have ordered := List.pairwise_mergeSort (byKeyTrans key) (byKeyTotal key) xs
  rw [List.pairwise_iff_forall_sublist] at listed ordered ⊢
  intro a b pair
  rcases Int.lt_or_eq_of_le (of_decide_eq_true (ordered pair)) with less | same
  · exact .inl less
  · have among := pair.filter (key · = key b)
    rw [sortKeeps] at among
    simp only [List.filter_cons,same,decide_true,if_true,List.filter_nil] at among
    exact .inr ⟨same,listed (among.trans List.filter_sublist)⟩

end

section
variable {size limit width height : UInt32} {positive : 0 < size.toNat} {xs ys : List UInt32} {tiles : List Tile}

theorem startsOrder (stepped : starts size limit 0 positive = .ok xs) : xs.Pairwise (· < ·) := by
  have order := @List.pairwise_lt_range' (0 : UInt32).toNat
    (covering size.toNat (limit.toNat - (0 : UInt32).toNat)) size.toNat positive
  rw [← startsRange stepped,List.pairwise_map] at order
  exact order

theorem startsCount (stepped : starts size limit 0 positive = .ok xs) :
    xs.length = covering size.toNat limit.toNat := by
  have count := congrArg List.length (startsRange stepped)
  rwa [List.length_map,List.length_range',UInt32.toNat_zero,Nat.sub_zero] at count

theorem cellsOrder (across : xs.Pairwise (· < ·)) (down : ys.Pairwise (· < ·)) :
    (ys.flatMap fun y => xs.map (cell size width height y)).Pairwise ReadsBefore := by
  refine List.pairwise_flatMap.mpr ⟨fun y _ => ?_,down.imp fun above s inS t inT => ?_⟩
  · exact List.pairwise_map.mpr (across.imp fun left => .inr ⟨rfl,left⟩)
  · obtain ⟨_,_,rfl⟩ := List.mem_map.mp inS
    obtain ⟨_,_,rfl⟩ := List.mem_map.mp inT
    exact .inl above

theorem gridOrdered (cut : grid width height size = .ok tiles) : tiles.Pairwise (OutwardBefore width height) := by
  obtain ⟨ts,read,same⟩ := Fault.bindOk cut
  obtain ⟨xs,ys,down,across,rfl⟩ := readingCells read
  cases Except.ok.inj same
  have listed : (ys.flatMap fun y => xs.map (cell (max size 1) width height y)).Pairwise ReadsBefore := by
    by_cases none : ys = []
    · rw [none]
      exact .nil
    · exact cellsOrder (startsOrder (across none)) (startsOrder down)
  -- where a tile stands in the order does not depend on its number
  show (number _).Pairwise fun s t => OutwardBefore width height (bare s) (bare t)
  rw [← List.pairwise_map,numberBare,List.pairwise_map]
  exact sortOrders (outwardKey width height) listed

theorem gridNumbered (cut : grid width height size = .ok tiles) {i : Nat} {t : Tile} (found : tiles[i]? = some t) :
    t.index = i := by
  obtain ⟨ts,_,same⟩ := Fault.bindOk cut
  cases Except.ok.inj same
  rw [number,List.getElem?_mapIdx] at found
  obtain ⟨s,_,rfl⟩ := Option.map_eq_some_iff.mp found
  rfl

theorem gridCount (cut : grid width height size = .ok tiles) : tiles.length =
    covering (max size 1).toNat width.toNat * covering (max size 1).toNat height.toNat := by
  obtain ⟨xs,ys,down,across,same⟩ := gridCells cut
  have count := same.length_eq
  simp only [List.length_map,List.length_flatMap,List.map_const',List.sum_replicate_nat,startsCount down] at count
  rw [count,Nat.mul_comm]
  by_cases none : ys = []
  · have rows := startsCount down
    rw [none,List.length_nil] at rows
    rw [← rows,Nat.mul_zero,Nat.mul_zero]
  · rw [startsCount (across none)]

theorem gridNonempty (cut : grid width height size = .ok tiles) {t : Tile} (member : t ∈ tiles) :
    0 < t.width.toNat ∧ 0 < t.height.toNat := by
  obtain ⟨_,⟨inX,_⟩,inY,_⟩ := gridCell cut member
  obtain ⟨wide,tall⟩ := gridSides cut member
  have positive := sizePositive size
  rw [wide,tall]
  omega

theorem startFound {start place wide i : Nat} (starts : start = size.toNat * i) (short : wide ≤ size.toNat)
    (left : start ≤ place) (right : place < start + wide) : start = size.toNat * (place / size.toNat) := by
  rw [starts] at left right ⊢
  have found : place / size.toNat = i := by
    refine Nat.div_eq_of_lt_le ?_ ?_
    · rwa [Nat.mul_comm]
    · rw [Nat.succ_mul,Nat.mul_comm]
      omega
  rw [found]

theorem gridHolds (cut : grid width height size = .ok tiles) {t : Tile} (member : t ∈ tiles) {p q : Nat}
    (holds : t.Holds p q) : t.x.toNat = (max size 1).toNat * (p / (max size 1).toNat) ∧
      t.y.toNat = (max size 1).toNat * (q / (max size 1).toNat) := by
  obtain ⟨_,⟨_,i,columns⟩,_,j,rows⟩ := gridCell cut member
  obtain ⟨wide,tall⟩ := gridSides cut member
  exact ⟨startFound columns (wide ▸ Nat.min_le_left _ _) holds.left holds.right,
    startFound rows (tall ▸ Nat.min_le_left _ _) holds.above holds.below⟩

theorem gridSame (cut : grid width height size = .ok tiles) {s t : Tile} (memberS : s ∈ tiles) (memberT : t ∈ tiles)
    {p q : Nat} (holdsS : s.Holds p q) (holdsT : t.Holds p q) : bare s = bare t := by
  obtain ⟨acrossS,downS⟩ := gridHolds cut memberS holdsS
  obtain ⟨acrossT,downT⟩ := gridHolds cut memberT holdsT
  rw [(gridCell cut memberS).1,(gridCell cut memberT).1,UInt32.toNat_inj.mp (acrossS.trans acrossT.symm),
    UInt32.toNat_inj.mp (downS.trans downT.symm)]

theorem beforeApart {s t : Tile} (before : OutwardBefore width height s t) : bare s ≠ bare t := by
  intro same
  have before : OutwardBefore width height (bare s) (bare t) := before
  rw [same] at before
  rcases before with less | ⟨_,above | ⟨_,left⟩⟩
  · exact Int.lt_irrefl _ less
  · exact UInt32.lt_irrefl _ above
  · exact UInt32.lt_irrefl _ left

theorem gridOnce (cut : grid width height size = .ok tiles) {p q : Nat} (inP : p < width.toNat)
    (inQ : q < height.toNat) : ∃! i : Nat, ∃ t : Tile, tiles[i]? = some t ∧ t.Holds p q := by
  obtain ⟨t,member,holds⟩ := gridCovers cut inP inQ
  obtain ⟨i,found⟩ := List.mem_iff_getElem?.mp member
  refine ⟨i,⟨t,found,holds⟩,fun j ⟨s,foundS,holdsS⟩ => ?_⟩
  have same := gridSame cut (List.mem_of_getElem? foundS) member holdsS holds
  have ordered := List.pairwise_iff_getElem.mp (gridOrdered cut)
  obtain ⟨insideI,rfl⟩ := List.getElem?_eq_some_iff.mp found
  obtain ⟨insideJ,rfl⟩ := List.getElem?_eq_some_iff.mp foundS
  rcases Nat.lt_trichotomy j i with less | equal | more
  · exact (beforeApart (ordered j i insideJ insideI less) same).elim
  · exact equal
  · exact (beforeApart (ordered i j insideI insideJ more) same.symm).elim

end

theorem startsFault {size limit : UInt32} {positive : 0 < size.toNat} {x : UInt32} {fault : Fault}
    (failed : starts size limit x positive = .error fault) : fault = .wordOverflow := by
  induction x using starts.induct size limit positive with
  | case1 x inside fits ih =>
    rw [starts,dif_pos inside,dif_pos fits] at failed
    rcases Fault.bindError failed with failed | ⟨rest,_,done⟩
    · exact ih failed
    · contradiction
  | case2 x inside wraps =>
    rw [starts,dif_pos inside,dif_neg wraps] at failed
    exact (Except.error.inj failed).symm
  | case3 x outside =>
    rw [starts,dif_neg outside] at failed
    contradiction

theorem gridFault {width height size : UInt32} {fault : Fault} (failed : grid width height size = .error fault) :
    fault = .wordOverflow := by
  rcases Fault.bindError failed with failed | ⟨_,_,done⟩
  · rcases Fault.bindError failed with failed | ⟨ys,_,failed⟩
    · exact startsFault failed
    · cases across : starts (max size 1) width 0 (sizePositive size) with
      | ok xs =>
        rw [rowsCells across] at failed
        contradiction
      | error other =>
        cases ys with
        | nil => contradiction
        | cons y rest =>
          rw [List.mapM_cons,row,across] at failed
          cases Except.error.inj failed
          exact startsFault across
  · contradiction

theorem gridExact (width height size : UInt32) :
    ((∃ fault, grid width height size = .error fault) ↔ 0 < height.toNat ∧
      (4294967295 < covering (max size 1).toNat height.toNat * (max size 1).toNat ∨
        4294967295 < covering (max size 1).toNat width.toNat * (max size 1).toNat)) ∧
    (∀ fault, grid width height size = .error fault → fault = .wordOverflow) ∧
    ∀ tiles, grid width height size = .ok tiles →
      tiles.length = covering (max size 1).toNat width.toNat * covering (max size 1).toNat height.toNat ∧
      (∀ t ∈ tiles, (0 < t.width.toNat ∧ 0 < t.height.toNat) ∧ t.Inside width.toNat height.toNat) ∧
      (∀ x < width.toNat, ∀ y < height.toNat, ∃! i : Nat, ∃ t : Tile, tiles[i]? = some t ∧ t.Holds x y) ∧
      tiles.Pairwise (OutwardBefore width height) ∧ ∀ (i : Nat) (t : Tile), tiles[i]? = some t → t.index = i := by
  refine ⟨?_,fun fault => gridFault,fun tiles cut => ⟨gridCount cut,fun t member => ?_,
    fun x inX y inY => gridOnce cut inX inY,gridOrdered cut,fun i t => gridNumbered cut⟩⟩
  · have failed : (∃ fault, grid width height size = .error fault) ↔
        ¬∃ tiles, grid width height size = .ok tiles := by
      cases grid width height size with
      | error fault => simp
      | ok tiles => simp
    rw [failed,gridFits]
    have none := @coveringNone (max size 1).toNat (sizePositive size)
    by_cases flat : height.toNat = 0
    · rw [flat,none]
      omega
    · omega
  · exact ⟨gridNonempty cut member,gridInside cut t member⟩

theorem edgesExact : (∃ tiles, grid 5 3 2 = .ok tiles ∧ tiles.length = 6 ∧
    (∀ x < 5, ∀ y < 3, ∃! i : Nat, ∃ t : Tile, tiles[i]? = some t ∧ t.Holds x y) ∧
    tiles.Pairwise (OutwardBefore 5 3)) ∧ grid 4294967295 1 64 = .error .wordOverflow := by
  constructor
  · obtain ⟨failed,_,exact⟩ := gridExact 5 3 2
    cases cut : grid 5 3 2 with
    | error fault =>
      exact absurd (failed.mp ⟨fault,cut⟩) (by decide)
    | ok tiles =>
      obtain ⟨count,_,once,ordered,_⟩ := exact tiles cut
      exact ⟨tiles,rfl,count,once,ordered⟩
  · obtain ⟨failed,fault,_⟩ := gridExact 4294967295 1 64
    obtain ⟨f,past⟩ := failed.mpr (by decide)
    rw [past,fault f past]

end Sightline.Tile
