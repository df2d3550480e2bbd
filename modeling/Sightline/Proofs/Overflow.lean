import Sightline.Proofs.Quotient

/-! Where rounding leaves the finite numbers. A result is infinite exactly if the exact one comes to at least half a
step past the greatest number, whatever the units are that it is counted in; for sums, products and quotients of finite
numbers that is a comparison of their counts. A unit that is halved halves what is counted, so a half is less than the
whole and a rounded quotient is at most twice the exact one. -/
namespace Sightline.Scalar
open Float.Model (UnpackedFloat)
open Float.Model.UnpackedFloat (Sign)

def brink : Nat := 33554431 * 2 ^ 252

theorem brinkShort : brink < 2 ^ (25 + 252) := by
  rw [Nat.pow_add]
  exact Nat.mul_lt_mul_of_pos_right (by decide) (Nat.two_pow_pos 252)

section
variable {n k fine : Nat}

theorem levelScaled (fine n j : Nat) : level (fine + j) (n * 2 ^ j) = level fine n := by
  by_cases none : n = 0
  · rw [none,Nat.zero_mul,levelZero,levelZero]
  · have drops : dropped (fine + j) (n * 2 ^ j) = dropped fine n + j := by
      rw [dropped,dropped,log2Scaled none]
      omega
    have least : fine ≤ dropped fine n := Nat.le_max_left _ _
    rw [level,level,drops,nearestScaled]
    congr 3
    omega

theorem minLess {i j most : Nat} (less : i < j) (below : min most j < most) : min most i < min most j := by
  omega

theorem levelFiner (some : 0 < n) (finite : level 0 n < 2139095040) : level 1 n < level 0 n := by
  refine minLess ?_ finite
  by_cases long : 24 ≤ n.log2
  · have drops : dropped 1 n = n.log2 - 23 ∧ dropped 0 n = n.log2 - 23 := by unfold dropped; omega
    rw [drops.1,drops.2]
    exact Nat.add_lt_add_right (Nat.mul_lt_mul_of_pos_right (by omega) (by decide)) _
  · have drops : dropped 1 n = 1 ∧ dropped 0 n = 0 := by unfold dropped; omega
    have whole : nearest n 0 = n := by simpa using nearestWhole n 0
    rw [drops.1,drops.2,whole,Nat.sub_self,Nat.zero_mul]
    unfold nearest
    dsimp only
    split
    · omega
    · split <;> omega

theorem nearestBelow {drop q : Nat} (below : 2 * n < (2 * q + 1) * 2 ^ drop) : nearest n drop ≤ q := by
  have parts := Nat.div_add_mod n (2 ^ drop)
  have bound : (2 * q + 1) * 2 ^ drop = 2 * (2 ^ drop * q) + 2 ^ drop := by
    rw [Nat.add_mul,Nat.one_mul,Nat.mul_assoc,Nat.mul_comm q]
  rw [bound] at below
  rcases Nat.lt_trichotomy (n / 2 ^ drop) q with less | same | more
  · exact Nat.le_trans (nearestBetween n drop).2 less
  · rw [same] at parts
    rw [nearest,same]
    exact Nat.le_of_eq (if_pos (by omega))
  · have past := Nat.mul_le_mul_left (2 ^ drop) (Nat.succ_le_of_lt more)
    rw [Nat.mul_succ] at past
    omega

theorem log2Under {m digits : Nat} (some : 0 < digits) (short : m < 2 ^ digits) (below : n < m * 2 ^ fine) :
    n.log2 < digits + fine := by
  have scaled := Nat.mul_lt_mul_of_pos_right short (Nat.two_pow_pos fine)
  rw [← Nat.pow_add] at scaled
  by_cases none : n = 0
  · rw [none,Nat.log2_zero]
    omega
  · exact (Nat.log2_lt none).mpr (Nat.lt_trans below scaled)

theorem levelBelow : level fine n < 2139095040 ↔ n < brink * 2 ^ fine := by
  constructor
  · intro finite
    refine Nat.lt_of_not_le fun past => ?_
    have top : level fine (brink * 2 ^ fine) = 2139095040 := by
      have scaled := levelScaled 0 brink fine
      rw [Nat.zero_add] at scaled
      rw [scaled]
      rfl
    have grows := @levelMono _ _ fine past
    omega
  · intro below
    have digits : n.log2 < 25 + 252 + fine := log2Under (by decide) brinkShort below
    refine Nat.lt_of_le_of_lt (Nat.min_le_right _ _) ?_
    by_cases last : n.log2 = 276 + fine
    · have drops : dropped fine n = 253 + fine := by unfold dropped; omega
      have kept : nearest n (253 + fine) ≤ 16777215 := by
        have doubled : 2 * brink = (2 * 16777215 + 1) * 2 ^ 253 := rfl
        refine nearestBelow ?_
        rw [Nat.pow_add,← Nat.mul_assoc,← doubled,Nat.mul_assoc]
        exact Nat.mul_lt_mul_of_pos_left below (by decide)
      rw [drops,Nat.add_sub_cancel]
      omega
    · have kept : nearest n (dropped fine n) ≤ 16777216 := nearestAtMost (by unfold dropped; omega)
      have drops : dropped fine n - fine ≤ 252 := by unfold dropped; omega
      have steps := Nat.mul_le_mul_right 8388608 drops
      omega

theorem levelPositive (some : 0 < n) : 0 < level 0 n := by
  have one : level 0 1 = 1 := rfl
  have grows : level 0 1 ≤ level 0 n := levelMono some
  omega

theorem mirroredAbs (f : Nat → Nat) (n : Int) : (mirrored f n).natAbs = f n.natAbs := by
  unfold mirrored
  split <;> omega

theorem markedBelow {q : Nat} (positive : 0 < k) : marked n k < 4 * q ↔ n < q * k := by
  have bound := residueBound (n % k) k
  rw [← Nat.div_lt_iff_lt_mul positive,marked]
  omega

end

section
variable {x y : Scalar} {n : Int}

theorem placedFiniteIff (placed : Placed x n) : Float32.isFinite x = true ↔ n.natAbs < 2139095040 := by
  have ranked := placed.ranked
  rw [finiteIff,leIff lowestNumber placed.number,leIff placed.number greatestNumber,rankLowest,rankGreatest]
  omega

theorem applyAbs (s : Sign) (n : Int) : (s.apply n).natAbs = n.natAbs := by
  cases s with
  | positive => rfl
  | negative => exact Int.natAbs_neg n

theorem countAbs (x : Scalar) : (count x).natAbs = units x := by
  cases spelled : x.toModel.unpack with
  | zero s => rw [countZero ⟨s,spelled⟩,unitsZero ⟨s,spelled⟩,Int.natAbs_zero]
  | notANumber =>
    rw [count,units,spelled]
    rfl
  | infinity s => rw [countInfinite spelled,applyAbs,Int.natAbs_natCast]
  | finite s m e positive => rw [countFinite spelled,applyAbs,Int.natAbs_natCast]

theorem placedUnits (placed : Placed x n) : mirrored (level 0) (count x) = n ∧ level 0 (units x) = n.natAbs := by
  have own := (placedCount placed.number).ranked
  have ranked := placed.ranked
  have same : mirrored (level 0) (count x) = n := by omega
  exact ⟨same,by rw [← same,mirroredAbs,countAbs]⟩

theorem placedBrink {fine : Nat} (placed : Placed x (mirrored (level fine) n)) :
    Float32.isFinite x = true ↔ n.natAbs < brink * 2 ^ fine := by
  rw [placedFiniteIff placed,mirroredAbs,levelBelow]

theorem numberFinite (number : Float32.isNaN x = false) : Float32.isFinite x = true ↔ units x < brink := by
  rw [placedBrink (placedCount number),countAbs,Nat.pow_zero,Nat.mul_one]

theorem unitsBelow (finite : Float32.isFinite x = true) : units x < brink :=
  (numberFinite (finiteNumber finite)).mp finite

theorem unitsSame (same : (x == y) = true) : units x = units y := by
  rcases alikeSame same with rfl | ⟨zeroX,zeroY⟩
  · rfl
  · rw [unitsZero (zeroIff.mp zeroX),unitsZero (zeroIff.mp zeroY)]

theorem sumFinite (finiteX : Float32.isFinite x = true) (finiteY : Float32.isFinite y = true) :
    Float32.isFinite (x + y) = true ↔ (count x + count y).natAbs < brink := by
  rw [placedBrink (sumCount finiteX finiteY),Nat.pow_zero,Nat.mul_one]

theorem differenceFinite (finiteX : Float32.isFinite x = true) (finiteY : Float32.isFinite y = true) :
    Float32.isFinite (x - y) = true ↔ (count x - count y).natAbs < brink := by
  rw [placedBrink (differenceCount finiteX finiteY),Nat.pow_zero,Nat.mul_one]

theorem absShape {s : Sign} {m : Nat} {e : Int} {positive : 0 < m} (spelled : x.toModel.unpack = .finite s m e positive) :
    Shape (Float32.abs x) m e := by
  obtain ⟨digits,low,high⟩ := finiteDigits spelled
  have placed : Placed (Float32.abs x) (level 0 (m * 2 ^ (e + 149).toNat)) := by
    have packed := placedFinite .positive positive low high digits
    show Placed (.ofModel (.pack x.toModel.unpack.abs)) _
    rw [spelled]
    exact packed
  have ranked := placed.ranked
  rw [levelDigits digits high] at ranked
  rcases shapes ((fromZero placed.number).mpr (by omega)) with ⟨_,top⟩ | ⟨_,middle⟩ | ⟨k,f,shape⟩
  · omega
  · omega
  · have own := shape.rank
    have digits' := shape.digits
    have low' := shape.low
    have same : k = m ∧ f = e := by omega
    obtain ⟨rfl,rfl⟩ := same
    exact shape

theorem absUnits (finite : Float32.isFinite x = true) : 0 ≤ Float32.abs x ∧ units (Float32.abs x) = units x := by
  rcases finiteCases finite with ⟨s,zero⟩ | ⟨s,m,e,positive,spelled⟩
  · have placed : Placed (Float32.abs x) 0 := by
      have packed := @placedPacked (.zero .positive) .positive 0 rfl (Nat.zero_le _)
      show Placed (.ofModel (.pack x.toModel.unpack.abs)) 0
      rw [zero]
      exact packed
    rw [unitsZero (zeroPlaced placed),unitsZero ⟨s,zero⟩]
    exact ⟨(sameIff.mp (zeroIff.mpr (zeroPlaced placed))).2,rfl⟩
  · have shape := absShape spelled
    rw [unitsShaped shape,unitsFinite spelled]
    have ranked := shape.rank
    have number : Float32.isNaN (Float32.abs x) = false := by
      obtain ⟨positive,spelled⟩ := shape.spelled
      show (Float32.abs x).toModel.unpack.isNaN = false
      rw [spelled]
      rfl
    exact ⟨(fromZero number).mpr (by omega),rfl⟩

theorem finiteAbs (finite : Float32.isFinite x = true) : Float32.isFinite (Float32.abs x) = true := by
  obtain ⟨positive,same⟩ := absUnits finite
  rw [numberFinite (leNumbers positive).2,same]
  exact unitsBelow finite

theorem productSigned {s t : Sign} {m k : Nat} {e f : Int} {positiveM : 0 < m} {positiveK : 0 < k}
    (left : x.toModel.unpack = .finite s m e positiveM) (right : y.toModel.unpack = .finite t k f positiveK) :
    Placed (x * y) (mirrored (level 149) (count x * count y)) := by
  have magnitude := productShaped (absShape left) (absShape right)
  obtain ⟨_,spelledX⟩ := (absShape left).spelled
  obtain ⟨_,spelledY⟩ := (absShape right).spelled
  have signs : count x * count y = (s * t).apply (units x * units y : Nat) := by
    rw [countFinite left,countFinite right,Int.natCast_mul]
    cases s <;> cases t
    · exact Int.neg_mul_neg _ _
    · exact Int.neg_mul _ _
    · exact Int.mul_neg _ _
    · rfl
  rw [spelledX,spelledY,unitsShaped (absShape left),unitsShaped (absShape right),← unitsFinite left,
    ← unitsFinite right] at magnitude
  rw [signs,mirroredApply (levelZero 149),productSpelled,left,right]
  refine placedPacked ?_ (levelBound 149 _)
  rw [← magnitude]
  exact roundedSign (s * t) _ _ _

theorem productCount (finiteX : Float32.isFinite x = true) (finiteY : Float32.isFinite y = true) :
    Placed (x * y) (mirrored (level 149) (count x * count y)) := by
  have none : Placed 0 0 := ⟨zeroNumber,congrArg Int.ofNat rankZero⟩
  rcases finiteCases finiteX with zeroX | ⟨s,m,e,positiveM,left⟩
  · rw [countZero zeroX,Int.zero_mul,mirroredZero (levelZero 149)]
    exact placedAlike (productZero zeroX finiteY).2 none
  · rcases finiteCases finiteY with zeroY | ⟨t,k,f,positiveK,right⟩
    · rw [countZero zeroY,Int.mul_zero,mirroredZero (levelZero 149)]
      exact placedAlike (productZero zeroY finiteX).1 none
    · exact productSigned left right

theorem productFinite (finiteX : Float32.isFinite x = true) (finiteY : Float32.isFinite y = true) :
    Float32.isFinite (x * y) = true ↔ units x * units y < brink * 2 ^ 149 := by
  rw [placedBrink (productCount finiteX finiteY),Int.natAbs_mul,countAbs,countAbs]

section
variable {s : Sign} {m : Nat} {e : Int} {positive : 0 < m}

theorem unitsPositive (spelled : y.toModel.unpack = .finite s m e positive) : 0 < units y := by
  rw [unitsFinite spelled]
  exact Nat.mul_pos positive (Nat.two_pow_pos _)

theorem quotientPlaced (finite : Float32.isFinite x = true) (right : y.toModel.unpack = .finite s m e positive) :
    ∃ n, Placed (x / y) n ∧ n.natAbs = level 106 (marked (units x * 2 ^ 253) (units y)) := by
  have few : ¬2 ^ 277 ≤ units x := by
    rcases finiteCases finite with zero | ⟨_,_,_,_,spelled⟩
    · rw [unitsZero zero]
      exact fun past => absurd (levelPast past) (by rw [levelZero]; decide)
    · exact unitsBound spelled
  exact ⟨_,quotientCount (finiteNumber finite) right,by rw [applyAbs,mirroredAbs,countAbs,portion,if_neg few]⟩

theorem quotientFinite (finite : Float32.isFinite x = true) (right : y.toModel.unpack = .finite s m e positive) :
    Float32.isFinite (x / y) = true ↔ units x < 33554431 * 2 ^ 103 * units y := by
  obtain ⟨n,placed,size⟩ := quotientPlaced finite right
  have whole : brink * 2 ^ 106 = 4 * (2 ^ 253 * (33554431 * 2 ^ 103)) := rfl
  rw [placedFiniteIff placed,size,levelBelow,whole,markedBelow (unitsPositive right),Nat.mul_comm _ (2 ^ 253),
    Nat.mul_assoc (2 ^ 253),Nat.mul_lt_mul_left (Nat.two_pow_pos 253)]

theorem quotientTwice (finiteX : Float32.isFinite x = true) (right : y.toModel.unpack = .finite s m e positive)
    (finite : Float32.isFinite (x / y) = true) : units (x / y) * units y ≤ units x * 2 ^ 150 := by
  obtain ⟨n,placed,size⟩ := quotientPlaced finiteX right
  refine Nat.le_of_not_lt fun more => ?_
  have some : 0 < units (x / y) := Nat.pos_of_mul_pos_right (Nat.zero_lt_of_lt more)
  have short : level 0 (units (x / y)) < 2139095040 := by
    rw [(placedUnits placed).2]
    exact (placedFiniteIff placed).mp finite
  -- then even twice the exact quotient would be less than the rounded one
  have twice : marked (units x * 2 ^ 253) (units y) ≤ units (x / y) * 2 ^ 105 := by
    have above := Nat.mul_lt_mul_of_pos_right more (Nat.two_pow_pos 103)
    rw [Nat.mul_assoc,← Nat.pow_add,Nat.mul_right_comm,← markedBelow (unitsPositive right)] at above
    have four : 4 * (units (x / y) * 2 ^ 103) = units (x / y) * 2 ^ 105 := by omega
    rw [four] at above
    exact Nat.le_of_lt above
  have scaled := levelScaled 1 (units (x / y)) 105
  have less := levelFiner some short
  rw [← scaled,(placedUnits placed).2,size] at less
  exact Nat.not_le.mpr less (levelMono twice)

end

theorem mirroredScaled (fine j : Nat) (n : Int) :
    mirrored (level (fine + j)) (n * (2 ^ j : Nat)) = mirrored (level fine) n := by
  have positive : (0 : Int) < (2 ^ j : Nat) := Int.natCast_pos.mpr (Nat.two_pow_pos j)
  have same : n * (2 ^ j : Nat) < 0 ↔ n < 0 := by
    refine ⟨fun below => Int.not_le.mp fun above => ?_,fun below => Int.mul_neg_of_neg_of_pos below positive⟩
    exact Int.not_le.mpr below (Int.mul_nonneg above (Int.le_of_lt positive))
  simp only [mirrored,same,Int.natAbs_mul,Int.natAbs_natCast,levelScaled]

theorem mirroredHalf {c s n : Int} (half : mirrored (level 0) c = mirrored (level 1) s)
    (rounded : mirrored (level 0) s = mirrored (level 0) n) (finite : level 0 s.natAbs < 2139095040) :
    min 0 n ≤ c ∧ c ≤ max 0 n := by
  have size := congrArg Int.natAbs half
  have whole := congrArg Int.natAbs rounded
  rw [mirroredAbs,mirroredAbs] at size whole
  have someC : 0 < c.natAbs → 0 < level 0 c.natAbs := levelPositive
  have someN : 0 < n.natAbs → 0 < level 0 n.natAbs := levelPositive
  have someS : 0 < s.natAbs → 0 < level 0 s.natAbs ∧ level 1 s.natAbs < level 0 s.natAbs := fun some =>
    ⟨levelPositive some,levelFiner some finite⟩
  have noneS : s.natAbs = 0 → level 1 s.natAbs = 0 := fun none => by rw [none,levelZero]
  have fewer : level 0 c.natAbs < level 0 n.natAbs → c.natAbs < n.natAbs := fun less =>
    Nat.lt_of_not_le fun more => Nat.not_le.mpr less (levelMono more)
  unfold mirrored at half rounded
  split at half <;> split at half <;> split at rounded <;> split at rounded <;> omega

theorem halfSum (finiteX : Float32.isFinite x = true) (finiteY : Float32.isFinite y = true)
    (finite : Float32.isFinite (x + y) = true) : Float32.isFinite ((x + y) * 0.5) = true ∧
      min 0 (count x + count y) ≤ count ((x + y) * 0.5) ∧ count ((x + y) * 0.5) ≤ max 0 (count x + count y) := by
  have halfFinite : Float32.isFinite 0.5 = true := rfl
  have halfCount : count 0.5 = (2 ^ 148 : Nat) := rfl
  have halfUnits : units 0.5 = 2 ^ 148 := rfl
  have short := unitsBelow finite
  obtain ⟨rounded,_⟩ := placedUnits (sumCount finiteX finiteY)
  obtain ⟨half,_⟩ := placedUnits (productCount finite halfFinite)
  rw [halfCount,mirroredScaled 1 148] at half
  refine ⟨(productFinite finite halfFinite).mpr ?_,mirroredHalf half rounded ?_⟩
  · rw [halfUnits]
    calc units (x + y) * 2 ^ 148 < brink * 2 ^ 148 := Nat.mul_lt_mul_of_pos_right short (Nat.two_pow_pos 148)
      _ ≤ brink * 2 ^ 149 := Nat.mul_le_mul_left _ (Nat.pow_le_pow_right (by decide) (by decide))
  · rwa [countAbs,levelBelow,Nat.pow_zero,Nat.mul_one]

/- What lies between two numbers is no further from half of their sum than the greatest number is from zero. -/
theorem centeredFinite {z : Scalar} (finiteX : Float32.isFinite x = true) (finiteY : Float32.isFinite y = true)
    (finite : Float32.isFinite (x + y) = true) (above : x ≤ z) (below : z ≤ y) :
    Float32.isFinite (z - (x + y) * 0.5) = true := by
  have finiteZ := finiteBetween finiteX finiteY above below
  obtain ⟨finiteC,low,high⟩ := halfSum finiteX finiteY finite
  have first := countMono above
  have second := countMono below
  have shortX := unitsBelow finiteX
  have shortY := unitsBelow finiteY
  rw [← countAbs] at shortX shortY
  rw [differenceFinite finiteZ finiteC]
  omega

end
end Sightline.Scalar
