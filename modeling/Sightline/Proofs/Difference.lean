import Sightline.Proofs.Growth

/-! Sums and differences of finite numbers. A number of either sign is a signed count of the finest units. What is
rounded keeps its sign, so rounding acts on both sides of zero alike, and the order of numbers is that of their counts.
A sum is rounded from the sum of two counts and a difference from their difference; it may be infinite, but it is a
number, and a difference grows with the number that is subtracted from. -/
namespace Sightline.Scalar
open Float.Model (Format UnpackedFloat)
open Float.Model.UnpackedFloat (Accuracy Sign roundWithAccuracy shiftToTargetExponent)

def mirrored (f : Nat → Nat) (n : Int) : Int := if n < 0 then -(f n.natAbs : Int) else f n.natAbs

/-- The finest units of a number, counted down from zero if it is negative. -/
def count (x : Scalar) : Int :=
  match x.toModel.unpack with
  | .finite s _ _ _ => s.apply (units x)
  | .infinity s => s.apply (units x)
  | _ => 0

section
variable {f : Nat → Nat} {n k : Int}

theorem mirroredMono (grows : ∀ {i j}, i ≤ j → f i ≤ f j) (h : n ≤ k) : mirrored f n ≤ mirrored f k := by
  unfold mirrored
  by_cases below : k < 0
  · have shrinks : f k.natAbs ≤ f n.natAbs := grows (by omega)
    rw [if_pos below,if_pos (by omega)]
    omega
  · rw [if_neg below]
    by_cases across : n < 0
    · rw [if_pos across]
      omega
    · have above : f n.natAbs ≤ f k.natAbs := grows (by omega)
      rw [if_neg across]
      omega

theorem mirroredApply (zero : f 0 = 0) (s : Sign) (i : Nat) : mirrored f (s.apply i) = s.apply (f i) := by
  cases s with
  | positive => exact if_neg (by show ¬(i : Int) < 0; omega)
  | negative =>
    show mirrored f (-(i : Int)) = -(f i : Int)
    rw [mirrored,Int.natAbs_neg,Int.natAbs_natCast]
    by_cases none : i = 0
    · rw [none,zero]
      rfl
    · rw [if_pos (by omega)]

theorem mirroredZero (zero : f 0 = 0) : mirrored f 0 = 0 := congrArg Int.ofNat zero

theorem applyMul (s : Sign) (n k : Int) : s.apply n * k = s.apply (n * k) := by
  cases s with
  | positive => rfl
  | negative => exact Int.neg_mul n k

end

section
variable {x x' y : Scalar} {s : Sign} {m n : Nat} {e : Int} {positive : 0 < m}

theorem packedSign (s : Sign) (positive : 0 < m) : (UnpackedFloat.pack .binary32 (.finite s m e positive)).toNat =
    s.toBitVec.toNat * 2147483648 + (UnpackedFloat.pack .binary32 (.finite .positive m e positive)).toNat := by
  have fields (b : BitVec 8) (f : BitVec 23) : (UnpackedFloat.packComponents .binary32 s b f).toNat =
      s.toBitVec.toNat * 2147483648 + (UnpackedFloat.packComponents .binary32 .positive b f).toNat := by
    rw [packedFields,packedFields]
    show _ = _ + (0 * 2147483648 + _ + _)
    omega
  unfold UnpackedFloat.pack UnpackedFloat.packedInfinity
  dsimp only
  by_cases high : 2 ^ Format.binary32.exponentBits ≤
      (e + Format.binary32.exponentBias + Format.binary32.mantissaBitsWithoutImplicit).toNat + 1
  · rw [if_pos high,if_pos high]
    exact fields _ _
  · rw [if_neg high,if_neg high]
    by_cases full : m.log2 + 1 = Format.binary32.mantissaBits
    · rw [if_pos full,if_pos full]
      exact fields _ _
    · rw [if_neg full,if_neg full]
      exact fields _ _

theorem roundedSign (s : Sign) (m : Nat) (e : Int) (a : Accuracy) :
    (UnpackedFloat.pack .binary32 (roundWithAccuracy .binary32 s m e a)).toNat = s.toBitVec.toNat * 2147483648 +
      (UnpackedFloat.pack .binary32 (roundWithAccuracy .binary32 .positive m e a)).toNat := by
  unfold roundWithAccuracy
  generalize shiftToTargetExponent .binary32 m e a = first
  generalize spelled : shiftToTargetExponent .binary32 first.1.roundedMantissa first.2 .exact = last
  dsimp only
  rw [spelled]
  by_cases zero : last.1.mantissa = 0
  · rw [dif_pos zero,dif_pos zero]
    cases s <;> rfl
  · rw [dif_neg zero,dif_neg zero]
    exact packedSign s _

theorem finiteDigits (spelled : x.toModel.unpack = .finite s m e positive) :
    (m < 8388608 ∧ e = -149 ∨ 8388608 ≤ m ∧ m < 16777216) ∧ -149 ≤ e ∧ e < 105 := by
  have number : decoded (toWord x).toNat ≠ .notANumber := by
    rw [← unpacked,spelled]
    nofun
  have shapes := numberShapes number
  rw [← unpacked,spelled] at shapes
  rcases shapes with ⟨same,_⟩ | ⟨same,_⟩ | ⟨m,e,_,same,size⟩
  · contradiction
  · contradiction
  · obtain ⟨_,rfl,rfl⟩ := UnpackedFloat.finite.inj same
    omega

theorem levelZero (fine : Nat) : level fine 0 = 0 := by
  have drops : dropped fine 0 = fine := by
    rw [dropped,Nat.log2_zero]
    omega
  have none : nearest 0 fine = 0 := by
    rw [nearest,Nat.zero_mod]
    exact (if_pos (Nat.two_pow_pos fine)).trans (Nat.zero_div _)
  rw [level,drops,none,Nat.sub_self]
  rfl

theorem placedFinite (s : Sign) (positive : 0 < m) (low : -149 ≤ e) (high : e < 105)
    (digits : m < 8388608 ∧ e = -149 ∨ 8388608 ≤ m ∧ m < 16777216) :
    Placed (.ofModel (.pack (.finite s m e positive))) (s.apply (level 0 (m * 2 ^ (e + 149).toNat))) := by
  refine placedPacked ?_ (levelBound 0 _)
  rw [packedFinite low high digits,levelDigits digits high]
  omega

theorem countFinite (spelled : x.toModel.unpack = .finite s m e positive) : count x = s.apply (units x) := by
  rw [count,spelled]

theorem countZero (zero : ∃ s, x.toModel.unpack = .zero s) : count x = 0 := by
  obtain ⟨s,zero⟩ := zero
  rw [count,zero]

theorem countInfinite (infinite : x.toModel.unpack = .infinity s) : count x = s.apply (units x) := by
  rw [count,infinite]

theorem placedZero (zero : ∃ s, x.toModel.unpack = .zero s) : Placed x 0 := by
  have same := zeroIff.mpr zero
  have number := (leNumbers (sameIff.mp same).1).1
  rw [beqIff number zeroNumber,rankZero] at same
  exact ⟨number,congrArg Int.ofNat same⟩

theorem placedCount (number : Float32.isNaN x = false) : Placed x (mirrored (level 0) (count x)) := by
  cases spelled : x.toModel.unpack with
  | notANumber =>
    have same : x.toModel.unpack.isNaN = false := number
    rw [spelled] at same
    contradiction
  | infinity s =>
    refine ⟨number,?_⟩
    rw [countInfinite spelled,mirroredApply (levelZero 0),unitsInfinite spelled,levelPast (Nat.le_refl _),
      ← packedAgain x,spelled]
    cases s <;> rfl
  | zero s =>
    rw [countZero ⟨s,spelled⟩,mirroredZero (levelZero 0)]
    exact placedZero ⟨s,spelled⟩
  | finite s m e positive =>
    obtain ⟨digits,low,high⟩ := finiteDigits spelled
    have placed := placedFinite s positive low high digits
    rwa [← spelled,packedAgain,← unitsFinite spelled,← mirroredApply (levelZero 0),← countFinite spelled] at placed

theorem placedAlike {n : Int} (alike : Alike x y) (placed : Placed y n) : Placed x n := by
  obtain ⟨nan,same⟩ := alike.places
  exact ⟨nan.trans placed.number,same ▸ placed.ranked⟩

theorem countMono (below : x ≤ y) : count x ≤ count y := by
  obtain ⟨numberX,numberY⟩ := leNumbers below
  by_cases fewer : count y < count x
  · have above : y ≤ x :=
      (placedLe (placedCount numberY) (placedCount numberX)).mpr (mirroredMono levelMono (Int.le_of_lt fewer))
    rcases alikeSame (sameIff.mpr ⟨below,above⟩) with same | ⟨zeroX,zeroY⟩
    · exact same ▸ Int.le_refl _
    · exact Int.le_of_eq ((countZero (zeroIff.mp zeroX)).trans (countZero (zeroIff.mp zeroY)).symm)
  · omega

theorem roundedCount (s : Sign) (positive : 0 < m) (low : -149 ≤ e) :
    Placed (.ofModel (.pack (.round .binary32 s m e)))
      (mirrored (level 0) (s.apply m * (2 ^ (e + 149).toNat : Nat))) := by
  rw [applyMul,← Int.natCast_mul,mirroredApply (levelZero 0),← roundLevel positive low]
  exact placedPacked (roundedSign s _ _ _) (roundLevel positive low ▸ levelBound 0 _)

theorem normalizedCount (n : Int) (low : -149 ≤ e) :
    Placed (.ofModel (.pack (.normalize .binary32 n e .positive)))
      (mirrored (level 0) (n * (2 ^ (e + 149).toNat : Nat))) := by
  unfold UnpackedFloat.normalize
  rcases Int.lt_trichotomy n 0 with below | rfl | above
  · have rounded := @roundedCount (-n).toNat e .negative (by omega) low
    have whole : Sign.negative.apply (-n).toNat = n := by
      show -((-n).toNat : Int) = n
      omega
    rw [whole] at rounded
    rw [Int.compare_eq_lt.mpr below]
    exact rounded
  · rw [Int.zero_mul]
    exact @placedPacked (.zero .positive) .positive 0 rfl (Nat.zero_le _)
  · have rounded := @roundedCount n.toNat e .positive (by omega) low
    have whole : Sign.positive.apply n.toNat = n := Int.toNat_of_nonneg (Int.le_of_lt above)
    rw [whole] at rounded
    rw [Int.compare_eq_gt.mpr above]
    exact rounded

theorem finiteCases (finite : Float32.isFinite x = true) :
    (∃ s, x.toModel.unpack = .zero s) ∨ ∃ s m e positive, x.toModel.unpack = .finite s m e positive := by
  have finite : x.toModel.unpack.isFinite = true := finite
  cases spelled : x.toModel.unpack with
  | zero s => exact .inl ⟨s,rfl⟩
  | finite s m e positive => exact .inr ⟨s,m,e,positive,rfl⟩
  | infinity s =>
    rw [spelled] at finite
    contradiction
  | notANumber =>
    rw [spelled] at finite
    contradiction

theorem differenceSpelled (x y : Scalar) :
    x - y = .ofModel (.pack (.sub .binary32 x.toModel.unpack y.toModel.unpack)) := rfl

theorem alignedCount {e f : Int} (lowE : -149 ≤ e) (lowF : -149 ≤ f) (n k : Int) :
    Placed (.ofModel (.pack (.normalize .binary32
      (n * (2 ^ (e - min e f).toNat : Nat) + k * (2 ^ (f - min e f).toNat : Nat)) (min e f) .positive)))
      (mirrored (level 0) (n * (2 ^ (e + 149).toNat : Nat) + k * (2 ^ (f + 149).toNat : Nat))) := by
  have units : (n * (2 ^ (e - min e f).toNat : Nat) + k * (2 ^ (f - min e f).toNat : Nat)) *
      (2 ^ (min e f + 149).toNat : Nat) = n * (2 ^ (e + 149).toNat : Nat) + k * (2 ^ (f + 149).toNat : Nat) := by
    rw [Int.add_mul,Int.mul_assoc,Int.mul_assoc,← Int.natCast_mul,← Int.natCast_mul,← Nat.pow_add,← Nat.pow_add]
    congr 5 <;> omega
  rw [← units]
  exact normalizedCount _ (by omega)

theorem countScaled {s : Sign} {m : Nat} {e : Int} {positive : 0 < m} (spelled : x.toModel.unpack = .finite s m e positive) :
    count x = s.apply m * (2 ^ (e + 149).toNat : Nat) := by
  rw [countFinite spelled,unitsFinite spelled,applyMul,Int.natCast_mul]

theorem differenceShaped {s t : Sign} {m k : Nat} {e f : Int} {positiveM : 0 < m} {positiveK : 0 < k}
    (left : x.toModel.unpack = .finite s m e positiveM) (right : y.toModel.unpack = .finite t k f positiveK) :
    Placed (x - y) (mirrored (level 0) (count x - count y)) := by
  have placed := alignedCount (finiteDigits left).2.1 (finiteDigits right).2.1 (s.apply m) (-t.apply k)
  rw [Int.neg_mul,Int.neg_mul,← Int.sub_eq_add_neg,← Int.sub_eq_add_neg,← countScaled left,← countScaled right,applyMul,
    applyMul,← Int.natCast_mul,← Int.natCast_mul,← Nat.shiftLeft_eq,← Nat.shiftLeft_eq] at placed
  rw [differenceSpelled,left,right]
  exact placed

theorem sumAligned {s t : Sign} {m k : Nat} {e f : Int} {positiveM : 0 < m} {positiveK : 0 < k}
    (left : x.toModel.unpack = .finite s m e positiveM) (right : y.toModel.unpack = .finite t k f positiveK) :
    Placed (x + y) (mirrored (level 0) (count x + count y)) := by
  have placed := alignedCount (finiteDigits left).2.1 (finiteDigits right).2.1 (s.apply m) (t.apply k)
  rw [← countScaled left,← countScaled right,applyMul,applyMul,← Int.natCast_mul,← Int.natCast_mul,← Nat.shiftLeft_eq,
    ← Nat.shiftLeft_eq] at placed
  show Placed (.ofModel (.pack (.add .binary32 x.toModel.unpack y.toModel.unpack))) _
  rw [left,right]
  exact placed

theorem differenceCount (finiteX : Float32.isFinite x = true) (finiteY : Float32.isFinite y = true) :
    Placed (x - y) (mirrored (level 0) (count x - count y)) := by
  rcases finiteCases finiteX with ⟨s,zeroX⟩ | ⟨s,m,e,positiveM,left⟩
  · rcases finiteCases finiteY with ⟨t,zeroY⟩ | ⟨t,k,f,positiveK,right⟩
    · rw [differenceSpelled,countZero ⟨s,zeroX⟩,countZero ⟨t,zeroY⟩,zeroX,zeroY]
      cases s <;> cases t <;> exact ⟨rfl,rfl⟩
    · obtain ⟨digits,low,high⟩ := finiteDigits right
      have opposite : count x - count y = (-t).apply (k * 2 ^ (f + 149).toNat : Nat) := by
        rw [countZero ⟨s,zeroX⟩,countFinite right,unitsFinite right]
        cases t with
        | positive => exact Int.zero_sub _
        | negative => exact (Int.zero_sub _).trans (Int.neg_neg _)
      rw [differenceSpelled,opposite,mirroredApply (levelZero 0),zeroX,right]
      exact placedFinite (-t) positiveK low high digits
  · rcases finiteCases finiteY with ⟨t,zeroY⟩ | ⟨t,k,f,positiveK,right⟩
    · have same : x - y = x := by
        rw [differenceSpelled,zeroY,left]
        show .ofModel (.pack (.finite s m e positiveM)) = x
        rw [← left,packedAgain]
      rw [same,countZero ⟨t,zeroY⟩,Int.sub_zero]
      exact placedCount (finiteNumber finiteX)
    · exact differenceShaped left right

theorem sumCount (finiteX : Float32.isFinite x = true) (finiteY : Float32.isFinite y = true) :
    Placed (x + y) (mirrored (level 0) (count x + count y)) := by
  rcases finiteCases finiteY with zeroY | ⟨t,k,f,positiveK,right⟩
  · rw [countZero zeroY,Int.add_zero]
    exact placedAlike (sumZero zeroY).1 (placedCount (finiteNumber finiteX))
  · rcases finiteCases finiteX with zeroX | ⟨s,m,e,positiveM,left⟩
    · rw [countZero zeroX,Int.zero_add]
      exact placedAlike (sumZero zeroX).2 (placedCount (finiteNumber finiteY))
    · exact sumAligned left right

theorem zeroPlaced (placed : Placed x 0) : ∃ s, x.toModel.unpack = .zero s := by
  have ranked := placed.ranked
  rw [Int.add_zero] at ranked
  exact zeroIff.mp ((beqIff placed.number zeroNumber).mpr ((Int.ofNat.inj ranked).trans rankZero.symm))

theorem differenceSelf (finite : Float32.isFinite x = true) : ∃ s, (x - x).toModel.unpack = .zero s := by
  have placed := differenceCount finite finite
  rw [Int.sub_self,mirroredZero (levelZero 0)] at placed
  exact zeroPlaced placed

theorem differenceMono (finiteX : Float32.isFinite x = true) (finiteX' : Float32.isFinite x' = true)
    (finiteY : Float32.isFinite y = true) (below : x ≤ x') : x - y ≤ x' - y := by
  have counts := countMono below
  rw [placedLe (differenceCount finiteX finiteY) (differenceCount finiteX' finiteY)]
  exact mirroredMono levelMono (by omega)

end
end Sightline.Scalar
