import Sightline.Proofs.Rounding

/-! Sums and products of numbers that are not negative. A number is so many of the finest units, a sum or a
product is rounded from the sum or the product of the two counts, and rounding keeps the order of counts. So a
sum grows with both of its terms, and a product with one factor while the other one is finite. The only product
that is no number is that of infinity and zero; there is no such sum. -/
namespace Sightline.Scalar
open Float.Model (UnpackedFloat)
open Float.Model.UnpackedFloat (Sign roundWithAccuracy)

/- How many of the finest units a number is; infinity counts as the first power of two past the greatest. -/
def units (x : Scalar) : Nat :=
  match x.toModel.unpack with
  | .finite _ m e _ => m * 2 ^ (e + 149).toNat
  | .infinity _ => 2 ^ 277
  | _ => 0

structure Shape (x : Scalar) (m : Nat) (e : Int) : Prop where
  spelled : ∃ positive, x.toModel.unpack = .finite .positive m e positive
  digits : m < 8388608 ∧ e = -149 ∨ 8388608 ≤ m ∧ m < 16777216
  low : -149 ≤ e
  high : e < 105
  rank : rank x = 2147483648 + ((e + 149).toNat * 8388608 + m)

/-- A number that stands so many places above zero in the order of all numbers. -/
structure Placed (x : Scalar) (n : Int) : Prop where
  number : Float32.isNaN x = false
  ranked : (rank x : Int) = 2147483648 + n

section
variable {x x' y y' : Scalar} {m k : Nat} {e f : Int}

theorem placedLe {n i : Int} (first : Placed x n) (second : Placed y i) : x ≤ y ↔ n ≤ i := by
  have rankX := first.ranked
  have rankY := second.ranked
  rw [leIff first.number second.number]
  omega

theorem rankZero : rank 0 = 2147483648 := rfl
theorem zeroNumber : Float32.isNaN 0 = false := rfl

theorem fromZero (number : Float32.isNaN x = false) : 0 ≤ x ↔ 2147483648 ≤ rank x := by
  rw [leIff zeroNumber number,rankZero]

theorem shapes (h : 0 ≤ x) : x.toModel.unpack = .infinity .positive ∧ rank x = 4286578688 ∨
    (∃ s, x.toModel.unpack = .zero s) ∧ rank x = 2147483648 ∨ ∃ m e, Shape x m e := by
  have number := (leNumbers h).2
  have above := (fromZero number).mp h
  have word := (toWord x).toNat_lt
  by_cases plus : (toWord x).toNat < 2147483648
  · obtain ⟨sign,placed⟩ := signPlus plus
    have ranked : rank x = 2147483648 + (toWord x).toNat := placed
    have spelled := numberShapes (decodedOfNumber number)
    rw [sign,← unpacked] at spelled
    rcases spelled with ⟨same,size⟩ | ⟨same,size⟩ | ⟨m,e,positive,same,size⟩
    · exact .inl ⟨same,by omega⟩
    · exact .inr (.inl ⟨⟨_,same⟩,by omega⟩)
    · exact .inr (.inr ⟨m,e,⟨_,same⟩,by omega,by omega,by omega,by omega⟩)
  · obtain ⟨_,placed⟩ := signMinus plus word
    have ranked : rank x = 4294967296 - (toWord x).toNat := placed
    have middle : rank x = rank 0 := by rw [rankZero]; omega
    obtain ⟨s,zero⟩ := zeroIff.mp ((beqIff number zeroNumber).mpr middle)
    exact .inr (.inl ⟨⟨s,zero⟩,middle.trans rankZero⟩)

theorem unitsFinite {s : Sign} {positive : 0 < m} (spelled : x.toModel.unpack = .finite s m e positive) :
    units x = m * 2 ^ (e + 149).toNat := by
  rw [units,spelled]

theorem unitsShaped (shape : Shape x m e) : units x = m * 2 ^ (e + 149).toNat := by
  obtain ⟨positive,spelled⟩ := shape.spelled
  exact unitsFinite spelled

theorem levelDigits (digits : m < 8388608 ∧ e = -149 ∨ 8388608 ≤ m ∧ m < 16777216) (high : e < 105) :
    level 0 (m * 2 ^ (e + 149).toNat) = (e + 149).toNat * 8388608 + m := by
  have drops : dropped 0 (m * 2 ^ (e + 149).toNat) = (e + 149).toNat := by
    unfold dropped
    rcases digits with ⟨small,least⟩ | ⟨large,bound⟩
    · have none : (e + 149).toNat = 0 := by omega
      have digits := log2Fits (Nat.lt_trans small (by decide))
      rw [none,Nat.pow_zero,Nat.mul_one]
      omega
    · have nonzero : m ≠ 0 := by omega
      have digits : m.log2 = 23 := (Nat.log2_eq_iff nonzero).mpr ⟨large,bound⟩
      rw [log2Scaled nonzero,digits]
      omega
  rw [level,drops,nearestWhole,Nat.min_eq_right (by omega)]
  rfl

theorem unitsZero (zero : ∃ s, x.toModel.unpack = .zero s) : units x = 0 := by
  obtain ⟨s,zero⟩ := zero
  rw [units,zero]

theorem unitsInfinite {s : Sign} (infinite : x.toModel.unpack = .infinity s) : units x = 2 ^ 277 := by
  rw [units,infinite]

theorem levelBound (fine n : Nat) : level fine n ≤ 2139095040 := Nat.min_le_left _ _

theorem levelPast {n : Nat} (h : 2 ^ 277 ≤ n) : level 0 n = 2139095040 := by
  have past : level 0 (2 ^ 277) = 2139095040 := by decide +kernel
  exact Nat.le_antisymm (levelBound 0 n) (past ▸ levelMono h)

theorem numberFits (size : (toWord x).toNat % 2147483648 ≤ 2139095040) : Float32.isNaN x = false := by
  refine Bool.eq_false_iff.mpr fun nan => ?_
  have none := decodedOfNan nan
  rw [unpacked,decoded] at none
  by_cases top : (toWord x).toNat / 8388608 % 256 = 255
  · rw [if_pos top,if_pos (by omega)] at none
    contradiction
  rw [if_neg top] at none
  by_cases bottom : (toWord x).toNat / 8388608 % 256 = 0
  · rw [if_pos bottom] at none
    by_cases blank : (toWord x).toNat % 8388608 = 0
    · rw [dif_pos blank] at none
      contradiction
    · rw [dif_neg blank] at none
      contradiction
  · rw [if_neg bottom] at none
    contradiction

theorem placedPacked {u : UnpackedFloat} {s : Sign} {n : Nat}
    (word : (UnpackedFloat.pack .binary32 u).toNat = s.toBitVec.toNat * 2147483648 + n) (size : n ≤ 2139095040) :
    Placed (.ofModel (.pack u)) (s.apply n) := by
  have spelled : (toWord (.ofModel (.pack u))).toNat = s.toBitVec.toNat * 2147483648 + n := word
  cases s with
  | positive =>
    have plus : (toWord (.ofModel (.pack u))).toNat = n := by
      rw [spelled]
      show 0 * 2147483648 + n = n
      omega
    refine ⟨numberFits (by omega),?_⟩
    rw [rank,plus,(signPlus (by omega)).2]
    rfl
  | negative =>
    have minus : (toWord (.ofModel (.pack u))).toNat = 2147483648 + n := by
      rw [spelled]
      show 1 * 2147483648 + n = 2147483648 + n
      omega
    refine ⟨numberFits (by omega),?_⟩
    rw [rank,minus,(signMinus (by omega) (by omega)).2]
    show _ = 2147483648 + -(n : Int)
    omega

theorem rankPacked {u : UnpackedFloat} {n : Nat} (word : (UnpackedFloat.pack .binary32 u).toNat = n)
    (size : n ≤ 2139095040) : Float32.isNaN (.ofModel (.pack u)) = false ∧
      rank (.ofModel (.pack u)) = 2147483648 + n := by
  have placed := @placedPacked u .positive n (word.trans (Nat.zero_add n).symm) size
  exact ⟨placed.number,Int.ofNat.inj placed.ranked⟩

theorem rankUnits (h : 0 ≤ x) : rank x = 2147483648 + level 0 (units x) := by
  rcases shapes h with ⟨infinite,top⟩ | ⟨zero,middle⟩ | ⟨m,e,shape⟩
  · rw [unitsInfinite infinite,levelPast (Nat.le_refl _),top]
  · rw [unitsZero zero,middle]
    rfl
  · rw [unitsShaped shape,shape.rank,levelDigits shape.digits shape.high]

theorem unitsMono (h : 0 ≤ x) (below : x ≤ y) : units x ≤ units y := by
  obtain ⟨numberX,numberY⟩ := leNumbers below
  have rankX := rankUnits h
  have rankY := rankUnits (leTrans h below)
  rw [leIff numberX numberY] at below
  by_cases fewer : units y < units x
  · have levels := @levelMono _ _ 0 (Nat.le_of_lt fewer)
    rcases alikeSame ((beqIff numberX numberY).mpr (by omega)) with same | ⟨zeroX,zeroY⟩
    · exact same ▸ Nat.le_refl _
    · rw [unitsZero (zeroIff.mp zeroX)]
      exact Nat.zero_le _
  · omega

theorem packedAgain (x : Scalar) : .ofModel (.pack x.toModel.unpack) = x := wordsUnpacked x

theorem sumZero (zero : ∃ s, y.toModel.unpack = .zero s) : Alike (x + y) x ∧ Alike (y + x) x := by
  obtain ⟨s,zero⟩ := zero
  have second u : Near (.add .binary32 u (.zero s)) u := by
    cases u with
    | zero r => cases r <;> cases s <;> exact .inr ⟨⟨_,rfl⟩,⟨_,rfl⟩⟩
    | _ => exact .inl rfl
  have first u : Near (.add .binary32 (.zero s) u) u := by
    cases u with
    | zero r => cases r <;> cases s <;> exact .inr ⟨⟨_,rfl⟩,⟨_,rfl⟩⟩
    | _ => exact .inl rfl
  have sums := And.intro (nearPacked (second x.toModel.unpack)) (nearPacked (first x.toModel.unpack))
  rwa [packedAgain,← zero] at sums

theorem sumShaped (left : Shape x m e) (right : Shape y k f) :
    (UnpackedFloat.pack .binary32 (.add .binary32 x.toModel.unpack y.toModel.unpack)).toNat =
      level 0 (units x + units y) := by
  obtain ⟨positiveM,spelledX⟩ := left.spelled
  obtain ⟨positiveK,spelledY⟩ := right.spelled
  have lowE := left.low
  have lowF := right.low
  have some : 0 < m * 2 ^ (e - min e f).toNat + k * 2 ^ (f - min e f).toNat :=
    Nat.add_pos_left (Nat.mul_pos positiveM (Nat.two_pow_pos _)) _
  have sum : UnpackedFloat.add .binary32 (.finite .positive m e positiveM) (.finite .positive k f positiveK) =
      UnpackedFloat.round .binary32 .positive
        (m * 2 ^ (e - min e f).toNat + k * 2 ^ (f - min e f).toNat) (min e f) := by
    rw [← Nat.shiftLeft_eq,← Nat.shiftLeft_eq] at some ⊢
    show UnpackedFloat.normalize .binary32 (((m <<< (e - min e f).toNat : Nat) : Int) +
      ((k <<< (f - min e f).toNat : Nat) : Int)) (min e f) .positive = _
    rw [← Int.natCast_add,UnpackedFloat.normalize,Int.compare_eq_gt.mpr (by omega)]
    rfl
  rw [spelledX,spelledY,sum,roundLevel some (by omega),unitsShaped left,unitsShaped right,Nat.add_mul,
    Nat.mul_assoc,Nat.mul_assoc,← Nat.pow_add,← Nat.pow_add]
  congr 4 <;> omega

theorem sumLevel (hx : 0 ≤ x) (hy : 0 ≤ y) : Float32.isNaN (x + y) = false ∧
    rank (x + y) = 2147483648 + level 0 (units x + units y) := by
  by_cases zeroY : ∃ s, y.toModel.unpack = .zero s
  · obtain ⟨nan,same⟩ := (@sumZero x y zeroY).1.places
    exact ⟨nan.trans (leNumbers hx).2,by rw [same,unitsZero zeroY,Nat.add_zero,rankUnits hx]⟩
  by_cases zeroX : ∃ s, x.toModel.unpack = .zero s
  · obtain ⟨nan,same⟩ := (@sumZero y x zeroX).2.places
    exact ⟨nan.trans (leNumbers hy).2,by rw [same,unitsZero zeroX,Nat.zero_add,rankUnits hy]⟩
  refine rankPacked ?_ (levelBound 0 _)
  rcases shapes hx with ⟨infinite,_⟩ | ⟨zero,_⟩ | ⟨m,e,left⟩
  · rw [levelPast (unitsInfinite infinite ▸ Nat.le_add_right _ _),infinite]
    rcases shapes hy with ⟨top,_⟩ | ⟨zero,_⟩ | ⟨k,f,⟨positive,spelled⟩,_⟩
    · rw [top]
      rfl
    · exact absurd zero zeroY
    · rw [spelled]
      rfl
  · exact absurd zero zeroX
  · rcases shapes hy with ⟨infinite,_⟩ | ⟨zero,_⟩ | ⟨k,f,right⟩
    · obtain ⟨positive,spelled⟩ := left.spelled
      rw [levelPast (unitsInfinite infinite ▸ Nat.le_add_left _ _),infinite,spelled]
      rfl
    · exact absurd zero zeroY
    · exact sumShaped left right

theorem sumMono (hx : 0 ≤ x) (hy : 0 ≤ y) (first : x ≤ x') (second : y ≤ y') : x + y ≤ x' + y' := by
  obtain ⟨number,ranked⟩ := sumLevel hx hy
  obtain ⟨number',ranked'⟩ := sumLevel (leTrans hx first) (leTrans hy second)
  have levels := @levelMono _ _ 0 (Nat.add_le_add (unitsMono hx first) (unitsMono hy second))
  rw [leIff number number']
  omega

theorem sumFromZero (hx : 0 ≤ x) (hy : 0 ≤ y) : 0 ≤ x + y := by
  obtain ⟨number,ranked⟩ := sumLevel hx hy
  rw [fromZero number]
  omega

theorem sumGrows (hx : 0 ≤ x) (hy : 0 ≤ y) : x ≤ x + y := by
  obtain ⟨number,ranked⟩ := sumLevel hx hy
  have levels := @levelMono _ _ 0 (Nat.le_add_right (units x) (units y))
  have own := rankUnits hx
  rw [leIff (leNumbers hx).2 number]
  omega

theorem productShaped (left : Shape x m e) (right : Shape y k f) :
    (UnpackedFloat.pack .binary32 (.mul .binary32 x.toModel.unpack y.toModel.unpack)).toNat =
      level 149 (units x * units y) := by
  obtain ⟨positiveM,spelledX⟩ := left.spelled
  obtain ⟨positiveK,spelledY⟩ := right.spelled
  have lowE := left.low
  have lowF := right.low
  have digits : e + f ≤ -149 ∨ 23 ≤ (m * k).log2 := by
    have large (h : 8388608 ≤ m * k) : 23 ≤ (m * k).log2 :=
      (Nat.le_log2 (Nat.ne_of_gt (Nat.mul_pos positiveM positiveK))).mpr h
    rcases left.digits with ⟨_,least⟩ | ⟨normal,_⟩
    · rcases right.digits with ⟨_,least'⟩ | ⟨normal,_⟩
      · exact .inl (by omega)
      · exact .inr (large (Nat.le_trans normal (Nat.le_mul_of_pos_left k positiveM)))
    · exact .inr (large (Nat.le_trans normal (Nat.le_mul_of_pos_right m positiveK)))
  have exponents : (e + f + 149 + (149 : Nat)).toNat = (e + 149).toNat + (f + 149).toNat := by omega
  rw [spelledX,spelledY]
  show (UnpackedFloat.pack .binary32 (roundWithAccuracy .binary32 .positive (m * k) (e + f) .exact)).toNat = _
  rw [roundedLevel 149 (Nat.mul_pos positiveM positiveK) (by omega) (by omega),unitsShaped left,
    unitsShaped right,exponents,Nat.pow_add,Nat.mul_mul_mul_comm]

theorem productSpelled (x y : Scalar) :
    x * y = .ofModel (.pack (.mul .binary32 x.toModel.unpack y.toModel.unpack)) := rfl

theorem productZero (zero : ∃ s, y.toModel.unpack = .zero s) (finite : Float32.isFinite x = true) :
    Alike (x * y) 0 ∧ Alike (y * x) 0 := by
  obtain ⟨s,zero⟩ := zero
  have finite : x.toModel.unpack.isFinite = true := finite
  have none : (0 : Scalar) = .ofModel (.pack (.zero .positive)) := rfl
  rw [none,productSpelled,productSpelled,zero]
  cases spelled : x.toModel.unpack with
  | infinity r =>
    rw [spelled] at finite
    contradiction
  | notANumber =>
    rw [spelled] at finite
    contradiction
  | zero r => exact ⟨nearPacked (.inr ⟨⟨_,rfl⟩,⟨_,rfl⟩⟩),nearPacked (.inr ⟨⟨_,rfl⟩,⟨_,rfl⟩⟩)⟩
  | finite r m e positive => exact ⟨nearPacked (.inr ⟨⟨_,rfl⟩,⟨_,rfl⟩⟩),nearPacked (.inr ⟨⟨_,rfl⟩,⟨_,rfl⟩⟩)⟩

theorem notInfinite {s : Sign} (finite : Float32.isFinite x = true) : x.toModel.unpack ≠ .infinity s := by
  intro infinite
  have finite : x.toModel.unpack.isFinite = true := finite
  rw [infinite] at finite
  contradiction

theorem productLevel (hx : 0 ≤ x) (hy : 0 ≤ y) (finiteX : Float32.isFinite x = true)
    (finiteY : Float32.isFinite y = true) : Float32.isNaN (x * y) = false ∧
      rank (x * y) = 2147483648 + level 149 (units x * units y) := by
  have level0 : level 149 0 = 0 := by decide
  rcases shapes hy with ⟨infinite,_⟩ | ⟨zero,_⟩ | ⟨k,f,right⟩
  · exact absurd infinite (notInfinite finiteY)
  · obtain ⟨nan,same⟩ := (productZero zero finiteX).1.places
    exact ⟨nan.trans zeroNumber,by rw [same,unitsZero zero,Nat.mul_zero,level0,rankZero]⟩
  · rcases shapes hx with ⟨infinite,_⟩ | ⟨zero,_⟩ | ⟨m,e,left⟩
    · exact absurd infinite (notInfinite finiteX)
    · obtain ⟨nan,same⟩ := (productZero zero finiteY).2.places
      exact ⟨nan.trans zeroNumber,by rw [same,unitsZero zero,Nat.zero_mul,level0,rankZero]⟩
    · exact rankPacked (productShaped left right) (levelBound 149 _)

theorem productInfinite (infinite : x.toModel.unpack = .infinity .positive) (hy : 0 ≤ y) :
    (∃ s, y.toModel.unpack = .zero s) ∧ Float32.isNaN (x * y) = true ∧ Float32.isNaN (y * x) = true ∨
      x * y = infinity ∧ y * x = infinity := by
  rw [productSpelled,productSpelled,infinite]
  rcases shapes hy with ⟨top,_⟩ | ⟨⟨s,zero⟩,_⟩ | ⟨k,f,⟨positive,spelled⟩,_⟩
  · rw [top]
    exact .inr (by decide +kernel)
  · rw [zero]
    cases s <;> exact .inl ⟨⟨_,rfl⟩,by decide +kernel⟩
  · rw [spelled]
    exact .inr (by constructor <;> rfl)

theorem finiteBut (hx : 0 ≤ x) (bounded : x.toModel.unpack ≠ .infinity .positive) :
    Float32.isFinite x = true := by
  show x.toModel.unpack.isFinite = true
  rcases shapes hx with ⟨infinite,_⟩ | ⟨⟨s,zero⟩,_⟩ | ⟨m,e,⟨positive,spelled⟩,_⟩
  · exact absurd infinite bounded
  · rw [zero]
    rfl
  · rw [spelled]
    rfl

theorem toInfinity (number : Float32.isNaN x = false) : x ≤ infinity := by
  have within := rankWithin (magnitude number)
  have top : rank infinity = 4286578688 := rfl
  rw [leIff number rfl,top]
  omega

theorem productFromZero (hx : 0 ≤ x) (hy : 0 ≤ y) : Float32.isNaN (x * y) = true ∨ 0 ≤ x * y := by
  have top : (0 : Scalar) ≤ infinity := toInfinity zeroNumber
  by_cases infiniteX : x.toModel.unpack = .infinity .positive
  · rcases productInfinite infiniteX hy with ⟨_,nan,_⟩ | ⟨infinite,_⟩
    · exact .inl nan
    · exact .inr (infinite ▸ top)
  by_cases infiniteY : y.toModel.unpack = .infinity .positive
  · rcases productInfinite infiniteY hx with ⟨_,_,nan⟩ | ⟨_,infinite⟩
    · exact .inl nan
    · exact .inr (infinite ▸ top)
  obtain ⟨number,ranked⟩ := productLevel hx hy (finiteBut hx infiniteX) (finiteBut hy infiniteY)
  refine .inr ((fromZero number).mpr ?_)
  omega

theorem finiteBelow (hx : 0 ≤ x) (below : x ≤ y) (finite : Float32.isFinite y = true) :
    Float32.isFinite x = true := by
  refine finiteBut hx fun infinite => ?_
  have top : rank x = 4286578688 := by
    rw [← packedAgain x,infinite]
    decide +kernel
  have most := (finiteBounds finite).2
  rw [leIff (leNumbers most).1 greatestNumber,rankGreatest] at most
  rw [leIff (leNumbers below).1 (leNumbers below).2] at below
  omega

theorem productMono (hx : 0 ≤ x) (below : x ≤ x') (hy : 0 ≤ y) (finite : Float32.isFinite y = true) :
    Float32.isNaN (x' * y) = true ∨ x * y ≤ x' * y := by
  have hx' := leTrans hx below
  cases nan : Float32.isNaN (x' * y) with
  | true => exact .inl rfl
  | false =>
    refine .inr ?_
    by_cases infinite : x.toModel.unpack = .infinity .positive
    · have infinite' : x'.toModel.unpack = .infinity .positive :=
        Classical.not_not.mp fun bounded => absurd infinite (notInfinite (finiteBelow hx below (finiteBut hx' bounded)))
      rw [productSpelled x,infinite,← infinite',← productSpelled]
      exact leSelf nan
    · obtain ⟨number,ranked⟩ := productLevel hx hy (finiteBut hx infinite) finite
      by_cases infinite' : x'.toModel.unpack = .infinity .positive
      · rcases productInfinite infinite' hy with ⟨_,none,_⟩ | ⟨top,_⟩
        · rw [none] at nan
          contradiction
        · rw [top]
          exact toInfinity number
      · obtain ⟨number',ranked'⟩ := productLevel hx' hy (finiteBut hx' infinite') finite
        have levels := @levelMono _ _ 149 (Nat.mul_le_mul_right (units y) (unitsMono hx below))
        rw [leIff number number']
        omega

theorem nanCarried {op : UnpackedFloat → UnpackedFloat → UnpackedFloat} (first : ∀ u, op .notANumber u = .notANumber)
    (second : ∀ u, op u .notANumber = .notANumber) (nan : Float32.isNaN x = true ∨ Float32.isNaN y = true) :
    Float32.isNaN (.ofModel (.pack (op x.toModel.unpack y.toModel.unpack))) = true := by
  have carried : op x.toModel.unpack y.toModel.unpack = .notANumber := by
    rcases nan with nan | nan
    · rw [decodedOfNan nan]
      exact first _
    · rw [decodedOfNan nan]
      exact second _
  rw [carried]
  decide +kernel

theorem nanSum (nan : Float32.isNaN x = true ∨ Float32.isNaN y = true) : Float32.isNaN (x + y) = true :=
  @nanCarried x y (.add .binary32) (fun _ => rfl) (fun u => by cases u <;> rfl) nan

theorem nanProduct (nan : Float32.isNaN x = true ∨ Float32.isNaN y = true) : Float32.isNaN (x * y) = true :=
  @nanCarried x y (.mul .binary32) (fun _ => rfl) (fun u => by cases u <;> rfl) nan

end
end Sightline.Scalar
