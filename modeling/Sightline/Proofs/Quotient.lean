import Sightline.Proofs.Difference

/-! Quotients of numbers by a finite number that is not zero. A quotient of two counts is rounded from its whole part
and from two digits more, which tell whether something is left over, and whether that is less or more than half. The
two digits come to the same however far the numerator was scaled up beforehand, so all quotients by one number can be
compared at one scale, and they grow or fall with the numerator as the divisor is above or below zero. -/
namespace Sightline.Scalar
open Float.Model (Format UnpackedFloat totalExponent)
open Float.Model.UnpackedFloat (ExtendedMantissa Sign accuracyOfFraction roundWithAccuracy shiftToExponent
  shiftToTargetExponent)

section
variable {n n' k r r' j : Nat} {e : Int}

/-- Two binary digits for what is left over by a division: half of the divisor, and whether anything else. -/
def residue (r k : Nat) : Nat := if r = 0 then 0 else if 2 * r < k then 1 else if 2 * r = k then 2 else 3

def marked (n k : Nat) : Nat := 4 * (n / k) + residue (n % k) k

theorem residueBound (r k : Nat) : residue r k < 4 := by
  unfold residue
  repeat' split
  all_goals decide

theorem residueMono (h : r ≤ r') : residue r k ≤ residue r' k := by
  unfold residue
  repeat' split
  all_goals omega

theorem residueDoubled (small : r < k) : residue r k = 2 * (2 * r / k) + min 1 (residue (2 * r % k) k) := by
  have next (rest : Nat) : min 1 (residue rest k) = if rest = 0 then 0 else 1 := by
    unfold residue
    repeat' split
    all_goals omega
  rw [next,residue]
  by_cases low : 2 * r < k
  · rw [Nat.div_eq_of_lt low,Nat.mod_eq_of_lt low]
    repeat' split
    all_goals omega
  · have one : 2 * r / k = 1 := Nat.div_eq_of_lt_le (by omega) (by omega)
    have less : 2 * r % k = 2 * r - k := by rw [Nat.mod_eq_sub_mod (Nat.not_lt.mp low),Nat.mod_eq_of_lt (by omega)]
    rw [one,less]
    repeat' split
    all_goals omega

theorem markedMono (h : n ≤ n') : marked n k ≤ marked n' k := by
  have quotients : n / k ≤ n' / k := Nat.div_le_div_right h
  unfold marked
  rcases Nat.lt_or_eq_of_le quotients with less | same
  · have upper := residueBound (n % k) k
    omega
  · have splitN := Nat.div_add_mod n k
    have splitN' := Nat.div_add_mod n' k
    rw [same] at splitN ⊢
    exact Nat.add_le_add_left (residueMono (by omega)) _

theorem markedPositive (some : 0 < n) : 0 < marked n k := by
  have split := Nat.div_add_mod n k
  unfold marked
  by_cases whole : n % k = 0
  · have quotient : n / k ≠ 0 := by
      intro none
      rw [none,whole] at split
      omega
    omega
  · have left : 1 ≤ residue (n % k) k := by
      rw [residue,if_neg whole]
      repeat' split
      all_goals decide
    omega

theorem markedScaled (n k : Nat) (positive : 0 < j) : marked (n * j) (k * j) = marked n k := by
  have bits (r : Nat) : (r * j = 0 ↔ r = 0) ∧ (2 * (r * j) < k * j ↔ 2 * r < k) ∧
      (2 * (r * j) = k * j ↔ 2 * r = k) := by
    rw [← Nat.mul_assoc]
    exact ⟨Nat.mul_eq_zero.trans (or_iff_left (Nat.ne_of_gt positive)),Nat.mul_lt_mul_right positive,
      Nat.mul_left_inj (Nat.ne_of_gt positive)⟩
  unfold marked residue
  rw [Nat.mul_div_mul_right _ _ positive,Nat.mul_mod_mul_right]
  simp only [(bits _).1,(bits _).2.1,(bits _).2.2]

theorem digitsShifted (q : Nat) {c : Nat} (two : c < 4) :
    ExtendedMantissa.ofMantissaAndAccuracy (4 * q + c) .exact >>> 2 =
      ⟨q,decide (4 ≤ 2 * c),decide (2 * c % 4 ≠ 0)⟩ := by
  have quotient : (4 * q + c) / 2 ^ 2 = q := by omega
  have rest : (4 * q + c) % 2 ^ 2 = c := by omega
  rw [shifted,quotient,rest]
  rfl

theorem markedAccuracy (n k : Nat) : ExtendedMantissa.ofMantissaAndAccuracy (marked n k) .exact >>> 2 =
    .ofMantissaAndAccuracy (n / k) (accuracyOfFraction (n % k) k) := by
  rw [marked,digitsShifted _ (residueBound _ _)]
  unfold residue accuracyOfFraction
  by_cases whole : n % k = 0
  · rw [if_pos whole,if_pos whole]
    rfl
  · rw [if_neg whole,if_neg whole]
    rcases Nat.lt_trichotomy (2 * (n % k)) k with low | tie | high
    · rw [if_pos low,compareLt low]
      rfl
    · rw [if_neg (by omega),if_pos tie,compareEq tie]
      rfl
    · rw [if_neg (by omega),if_neg (by omega),compareGt high]
      rfl

theorem markedHalved (positive : 0 < k) (n : Nat) :
    ExtendedMantissa.ofMantissaAndAccuracy (marked (2 * n) k) .exact >>> 3 =
      ExtendedMantissa.ofMantissaAndAccuracy (marked n k) .exact >>> 2 := by
  have split : 2 * n = k * (2 * (n / k)) + 2 * (n % k) := by
    rw [Nat.mul_left_comm,← Nat.mul_add,Nat.div_add_mod]
  have quotient : 2 * n / k = 2 * (n / k) + 2 * (n % k) / k := by rw [split,Nat.mul_add_div positive]
  have rest : 2 * n % k = 2 * (n % k) % k := by rw [split,Nat.mul_add_mod]
  have doubled := residueDoubled (Nat.mod_lt n positive)
  have upper := residueBound (2 * (n % k) % k) k
  rw [shifted,shifted,ExtendedMantissa.mk.injEq,decide_eq_decide,decide_eq_decide,marked,marked,quotient,rest,doubled]
  generalize residue (2 * (n % k) % k) k = c at upper
  have digit : 2 * (n % k) / k ≤ 1 := by
    have small := Nat.mod_lt n positive
    exact Nat.le_of_lt_succ (Nat.div_lt_of_lt_mul (by omega))
  omega

theorem markedShifted (positive : 0 < k) (n j : Nat) :
    ExtendedMantissa.ofMantissaAndAccuracy (marked (n * 2 ^ j) k) .exact >>> (j + 2) =
      .ofMantissaAndAccuracy (n / k) (accuracyOfFraction (n % k) k) := by
  induction j generalizing n with
  | zero => rw [Nat.pow_zero,Nat.mul_one,markedAccuracy]
  | succ j ih =>
    -- the last shift undoes the first doubling
    have last := congrArg ExtendedMantissa.shiftRightOne (ih (2 * n))
    rw [Nat.pow_succ',← Nat.mul_assoc,Nat.mul_comm n 2,← markedAccuracy n,← markedHalved positive]
    rw [← markedAccuracy] at last
    exact last

theorem shiftAdd (em : ExtendedMantissa) (i j : Nat) : em >>> (i + j) = (em >>> i) >>> j := by
  induction j with
  | zero => rfl
  | succ j ih => exact congrArg ExtendedMantissa.shiftRightOne ih

theorem log2Shifted (some : n / 2 ^ j ≠ 0) : n.log2 = (n / 2 ^ j).log2 + j := by
  have positive := Nat.two_pow_pos j
  have nonzero : n ≠ 0 := by
    rintro rfl
    exact some (Nat.zero_div _)
  have lower : 2 ^ (n / 2 ^ j).log2 * 2 ^ j ≤ n := (Nat.le_div_iff_mul_le positive).mp (Nat.log2_self_le some)
  have upper : n < 2 ^ ((n / 2 ^ j).log2 + 1) * 2 ^ j := (Nat.div_lt_iff_lt_mul positive).mp Nat.lt_log2_self
  rw [← Nat.pow_add] at lower upper
  exact (Nat.log2_eq_iff nonzero).mpr ⟨lower,by rwa [Nat.add_right_comm]⟩

theorem log2Below (none : n / 2 ^ j = 0) : n.log2 ≤ j := by
  by_cases zero : n = 0
  · rw [zero,Nat.log2_zero]
    exact Nat.zero_le j
  · have below : n < 2 ^ j := Nat.lt_of_div_eq_zero (Nat.two_pow_pos j) none
    exact Nat.le_of_lt ((Nat.log2_lt zero).mpr below)

theorem markedQuotient (positive : 0 < k) (n j : Nat) : marked (n * 2 ^ j) k / 2 ^ (j + 2) = n / k := by
  have same := congrArg ExtendedMantissa.mantissa (markedShifted positive n j)
  rw [shifted] at same
  refine same.trans ?_
  cases accuracyOfFraction (n % k) k with
  | exact => rfl
  | inexact half => cases half <;> rfl

theorem roundedQuotient (spec : Format) (positive : 0 < k) (n j : Nat) (s : Sign)
    (enough : e ≤ spec.targetExponent (totalExponent (n / k) e)) :
    roundWithAccuracy spec s (n / k) e (accuracyOfFraction (n % k) k) =
      roundWithAccuracy spec s (marked (n * 2 ^ j) k) (e - j - 2) .exact := by
  have quotient := markedQuotient positive n j
  have targets : spec.targetExponent (totalExponent (marked (n * 2 ^ j) k) (e - j - 2)) =
      spec.targetExponent (totalExponent (n / k) e) := by
    have several := spec.hm
    unfold Format.targetExponent totalExponent Format.mantissaBits at enough ⊢
    by_cases none : n / k = 0
    · have below := log2Below (quotient.trans none)
      rw [none,Nat.log2_zero] at enough ⊢
      omega
    · have digits := @log2Shifted _ (j + 2) (by rwa [quotient])
      rw [quotient] at digits
      omega
  have shifts : shiftToTargetExponent spec (n / k) e (accuracyOfFraction (n % k) k) =
      shiftToTargetExponent spec (marked (n * 2 ^ j) k) (e - j - 2) .exact := by
    unfold shiftToTargetExponent shiftToExponent
    rw [targets]
    generalize spec.targetExponent (totalExponent (n / k) e) = t at enough
    have more : (t - (e - j - 2)).toNat = j + 2 + (t - e).toNat := by omega
    dsimp only
    rw [more,shiftAdd,markedShifted positive]
    congr 1
    omega
  unfold roundWithAccuracy
  rw [shifts]

end

section
variable {x x' y : Scalar} {s t : Sign} {m k : Nat} {e f : Int} {positiveM : 0 < m} {positiveK : 0 < k}

theorem quotientDigits (digits : Nat) (positiveM : 0 < m) (positiveK : 0 < k) {j : Nat}
    (h : k.log2 + 1 + digits ≤ m.log2 + j) : digits ≤ (m * 2 ^ j / k).log2 := by
  have below : k < 2 ^ (k.log2 + 1) := Nat.lt_log2_self
  have above : 2 ^ m.log2 ≤ m := Nat.log2_self_le (Nat.ne_of_gt positiveM)
  have large : 2 ^ digits ≤ m * 2 ^ j / k := by
    rw [Nat.le_div_iff_mul_le positiveK]
    calc 2 ^ digits * k ≤ 2 ^ digits * 2 ^ (k.log2 + 1) := Nat.mul_le_mul_left _ (Nat.le_of_lt below)
      _ = 2 ^ (k.log2 + 1 + digits) := by rw [← Nat.pow_add,Nat.add_comm digits]
      _ ≤ 2 ^ (m.log2 + j) := Nat.pow_le_pow_right (by decide) h
      _ = 2 ^ m.log2 * 2 ^ j := Nat.pow_add ..
      _ ≤ m * 2 ^ j := Nat.mul_le_mul_right _ above
  exact (Nat.le_log2 (Nat.ne_of_gt (Nat.lt_of_lt_of_le (Nat.two_pow_pos digits) large))).mpr large

theorem quotientSpelled (x y : Scalar) :
    x / y = .ofModel (.pack (.div .binary32 x.toModel.unpack y.toModel.unpack)) := rfl

theorem divMarked (s t : Sign) (positiveM : 0 < m) (positiveK : 0 < k) (low : -253 ≤ e - f) :
    UnpackedFloat.div .binary32 (.finite s m e positiveM) (.finite t k f positiveK) =
      roundWithAccuracy .binary32 (s / t) (marked (m * 2 ^ (e - f + 253).toNat) k) (-255) .exact := by
  obtain ⟨r,target⟩ : ∃ r, r = min (e - f) (max ((m.log2 + 1 + e) - (k.log2 + 1 + f) - 24) (-149)) := ⟨_,rfl⟩
  have divided : UnpackedFloat.div .binary32 (.finite s m e positiveM) (.finite t k f positiveK) =
      roundWithAccuracy .binary32 (s / t) (m * 2 ^ (e - f - r).toNat / k) r
        (accuracyOfFraction (m * 2 ^ (e - f - r).toNat % k) k) := by
    rw [← Nat.shiftLeft_eq,target]
    rfl
  have enough : r ≤ max ((m * 2 ^ (e - f - r).toNat / k).log2 + r - 23) (-149) := by
    by_cases finest : r ≤ -149
    · omega
    · have digits := quotientDigits 23 positiveM positiveK (show k.log2 + 1 + 23 ≤ m.log2 + (e - f - r).toNat by omega)
      omega
  have scale : r - (r + 253).toNat - 2 = -255 := by omega
  have shifts : (e - f - r).toNat + (r + 253).toNat = (e - f + 253).toNat := by omega
  rw [← Scalar.target] at enough
  rw [divided,roundedQuotient .binary32 positiveK _ (r + 253).toNat _ enough,scale,Nat.mul_assoc,← Nat.pow_add,shifts]

theorem quotientShaped (left : x.toModel.unpack = .finite s m e positiveM)
    (right : y.toModel.unpack = .finite t k f positiveK) :
    Placed (x / y) ((s / t).apply (level 106 (marked (units x * 2 ^ 253) (units y)))) := by
  obtain ⟨_,lowE,highE⟩ := finiteDigits left
  obtain ⟨_,lowF,highF⟩ := finiteDigits right
  have scaled : marked (m * 2 ^ (e - f + 253).toNat) k = marked (units x * 2 ^ 253) (units y) := by
    rw [← markedScaled _ _ (Nat.two_pow_pos (f + 149).toNat),unitsFinite left,unitsFinite right]
    simp only [Nat.mul_assoc,← Nat.pow_add]
    congr 3
    omega
  have some : 0 < units x * 2 ^ 253 := by
    rw [unitsFinite left]
    exact Nat.mul_pos (Nat.mul_pos positiveM (Nat.two_pow_pos _)) (Nat.two_pow_pos _)
  have positive := @markedPositive _ (units y) some
  have none : (-255 + 149 + (106 : Nat) : Int).toNat = 0 := rfl
  rw [quotientSpelled,left,right,divMarked s t positiveM positiveK (by omega),scaled]
  generalize marked (units x * 2 ^ 253) (units y) = n at positive
  refine placedPacked ?_ (levelBound 106 _)
  rw [roundedSign,roundedLevel 106 positive (by decide) (by omega),none,Nat.pow_zero,Nat.mul_one]

theorem unitsBound (spelled : x.toModel.unpack = .finite s m e positiveM) : ¬2 ^ 277 ≤ units x := by
  obtain ⟨digits,low,high⟩ := finiteDigits spelled
  have kept : level 0 (units x) ≠ 2139095040 := by
    rw [unitsFinite spelled,levelDigits digits high]
    omega
  exact fun past => kept (levelPast past)

def portion (k n : Nat) : Nat := if 2 ^ 277 ≤ n then 2139095040 else level 106 (marked (n * 2 ^ 253) k)

theorem portionMono {i j : Nat} (h : i ≤ j) : portion k i ≤ portion k j := by
  unfold portion
  by_cases infinite : 2 ^ 277 ≤ j
  · rw [if_pos infinite]
    split
    · exact Nat.le_refl _
    · exact levelBound 106 _
  · rw [if_neg infinite,if_neg fun first => infinite (Nat.le_trans first h)]
    exact levelMono (markedMono (Nat.mul_le_mul_right _ h))

theorem portionZero (k : Nat) : portion k 0 = 0 := by
  have none : marked (0 * 2 ^ 253) k = 0 := by
    rw [Nat.zero_mul,marked,Nat.zero_div,Nat.zero_mod]
    rfl
  rw [portion,none,levelZero]
  exact if_neg fun past => absurd (levelPast past) (by rw [levelZero]; decide)

theorem applyDiv (s t : Sign) (n : Int) : (s / t).apply n = t.apply (s.apply n) := by
  cases s <;> cases t
  · exact (Int.neg_neg n).symm
  · rfl
  · rfl
  · rfl

theorem quotientCount (number : Float32.isNaN x = false) (right : y.toModel.unpack = .finite t k f positiveK) :
    Placed (x / y) (t.apply (mirrored (portion (units y)) (count x))) := by
  cases spelled : x.toModel.unpack with
  | notANumber =>
    have same : x.toModel.unpack.isNaN = false := number
    rw [spelled] at same
    contradiction
  | infinity s =>
    rw [countInfinite spelled,mirroredApply (portionZero _),unitsInfinite spelled,← applyDiv,portion,
      if_pos (Nat.le_refl _),quotientSpelled,spelled,right]
    refine placedPacked ?_ (Nat.le_refl _)
    cases s <;> cases t <;> rfl
  | zero s =>
    rw [countZero ⟨s,spelled⟩,mirroredZero (portionZero _),quotientSpelled,spelled,right]
    have signed : t.apply 0 = (s / t).apply (0 : Nat) := by cases s <;> cases t <;> rfl
    rw [signed]
    refine placedPacked ?_ (Nat.zero_le _)
    cases s <;> cases t <;> rfl
  | finite s m e positiveM =>
    rw [countFinite spelled,mirroredApply (portionZero _),← applyDiv,portion,if_neg (unitsBound spelled)]
    exact quotientShaped spelled right

theorem quotientZero (zero : ∃ s, x.toModel.unpack = .zero s)
    (right : y.toModel.unpack = .finite t k f positiveK) : Placed (x / y) 0 := by
  have placed := quotientCount (placedZero zero).number right
  rw [countZero zero,mirroredZero (portionZero _)] at placed
  cases t <;> exact placed

theorem quotientMono (right : y.toModel.unpack = .finite t k f positiveK) (below : x ≤ x') :
    (t = .positive → x / y ≤ x' / y) ∧ (t = .negative → x' / y ≤ x / y) := by
  obtain ⟨number,number'⟩ := leNumbers below
  have first := quotientCount number right
  have second := quotientCount number' right
  have portions : mirrored (portion (units y)) (count x) ≤ mirrored (portion (units y)) (count x') :=
    mirroredMono portionMono (countMono below)
  rw [placedLe first second,placedLe second first]
  constructor <;> rintro rfl
  · exact portions
  · exact Int.neg_le_neg portions

end
end Sightline.Scalar
