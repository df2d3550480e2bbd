import Sightline.Proofs.Quotient
import Sightline.Tree.Build

/-! Fractions of a count, in double precision. A count and a quotient of two counts are positive and far from both
ends of the exponents, so they keep all 53 digits. Such numbers are ordered as their exponents and digits are when
they are written one behind the other, and rounding, which may carry into the exponent, is monotone on these. The
steps are those of single precision: round, take two more digits of a quotient, bring all numerators to one scale. -/
namespace Sightline.Progress
open Scalar
open Float.Model (Format UnpackedFloat totalExponent)
open Float.Model.UnpackedFloat (ExtendedMantissa Sign accuracyOfFraction roundWithAccuracy shiftToExponent
  shiftToTargetExponent)

structure Digits (x : Float) (m : Nat) (e : Int) : Prop where
  positive : 0 < m
  least : 4503599627370496 ≤ m
  most : m < 9007199254740992
  low : -1074 ≤ e
  high : e < 972
  packed : x.toModel = .pack (.finite .positive m e positive)

def stacked (m : Nat) (e : Int) : Int := e * 4503599627370496 + m

section
variable {x y : Float} {m k n : Nat} {e f : Int}

theorem normalFields {m : Nat} {e : Int} {positive : 0 < m} (least : 4503599627370496 ≤ m)
    (most : m < 9007199254740992) (high : e < 972) :
    UnpackedFloat.pack .binary64 (.finite .positive m e positive) =
      UnpackedFloat.packComponents .binary64 .positive (BitVec.ofNat 11 (e + 1075).toNat) (BitVec.ofNat 52 m) := by
  have digits : m.log2 = 52 := (Nat.log2_eq_iff (Nat.ne_of_gt positive)).mpr ⟨least,most⟩
  have biased : (e + Format.binary64.exponentBias + Format.binary64.mantissaBitsWithoutImplicit).toNat =
      (e + 1075).toNat := by
    show (e + 1023 + 52).toNat = _
    omega
  unfold UnpackedFloat.pack
  dsimp only
  rw [biased,digits,if_neg (by show ¬2048 ≤ _; omega)]
  exact if_pos rfl

theorem signField (spec : Format) (s : Sign) (e : BitVec spec.exponentBits)
    (m : BitVec spec.mantissaBitsWithoutImplicit) :
    UnpackedFloat.unpackSign (UnpackedFloat.packComponents spec s e m) = s.toBitVec := by
  refine BitVec.eq_of_getLsbD_eq fun i one => ?_
  obtain rfl : i = 0 := by omega
  delta UnpackedFloat.unpackSign UnpackedFloat.packComponents
  simp [BitVec.getLsbD_append,BitVec.getElem_append]

theorem Digits.unpacked (d : Digits x m e) : x.toModel.unpack = .finite .positive m e d.positive := by
  have least := d.least
  have most := d.most
  have low := d.low
  have high := d.high
  have biased : (BitVec.ofNat 11 (e + 1075).toNat).toNat = (e + 1075).toNat := by
    rw [BitVec.toNat_ofNat]
    exact Nat.mod_eq_of_lt (by omega)
  have inner : BitVec.ofNat 11 (e + 1075).toNat ≠ -1#11 ∧ BitVec.ofNat 11 (e + 1075).toNat ≠ 0#11 := by
    constructor <;> intro same <;> have same := congrArg BitVec.toNat same <;> rw [biased] at same
    · have same : (e + 1075).toNat = 2047 := same
      omega
    · have same : (e + 1075).toNat = 0 := same
      omega
  have digits : (1#1 ++ BitVec.ofNat 52 m).toNat = m := by
    rw [BitVec.toNat_append,← Nat.shiftLeft_add_eq_or_of_lt (BitVec.isLt _)]
    show 1 <<< 52 + _ = _
    rw [BitVec.toNat_ofNat,Nat.shiftLeft_eq]
    omega
  rw [d.packed]
  show UnpackedFloat.unpack .binary64 (UnpackedFloat.pack .binary64 _) = _
  rw [normalFields least most high]
  unfold UnpackedFloat.unpack
  dsimp only
  rw [if_neg fun top => inner.1 (UnpackedFloat.unpackExponent_packComponents.symm.trans top),
    if_neg fun bottom => inner.2 (UnpackedFloat.unpackExponent_packComponents.symm.trans bottom)]
  refine finiteCongr ?_ ?_ ?_
  · rw [signField]
    rfl
  · rw [UnpackedFloat.unpackMantissa_packComponents]
    exact digits
  · rw [UnpackedFloat.unpackExponent_packComponents,biased]
    show ((e + 1075).toNat : Int) - (1023 + 52) = e
    omega

theorem digitsSame (dx : Digits x m e) (dy : Digits y k f) (same : stacked m e = stacked k f) : x = y := by
  obtain ⟨_,leastM,mostM,_,_,packedX⟩ := dx
  obtain ⟨_,leastK,mostK,_,_,packedY⟩ := dy
  unfold stacked at same
  obtain rfl : e = f := by omega
  obtain rfl : m = k := by omega
  cases x
  cases y
  exact congrArg Float.ofModel (packedX.trans packedY.symm)

theorem digitsLe (dx : Digits x m e) (dy : Digits y k f) : x ≤ y ↔ stacked m e ≤ stacked k f := by
  show decide ((x.toModel.unpack.compare y.toModel.unpack).any (·.isLE) = true) = true ↔ _
  obtain ⟨leastM,mostM⟩ := And.intro dx.least dx.most
  obtain ⟨leastK,mostK⟩ := And.intro dy.least dy.most
  rw [dx.unpacked,dy.unpacked]
  show decide (((compare e f).then (compare m k)).isLE = true) = true ↔ _
  unfold stacked
  rw [decide_eq_true_iff]
  rcases Int.lt_trichotomy e f with less | same | more
  · rw [Int.compare_eq_lt.mpr less]
    exact iff_of_true rfl (by omega)
  · rw [Int.compare_eq_eq.mpr same]
    show (compare m k).isLE = true ↔ _
    rw [Nat.isLE_compare]
    omega
  · rw [Int.compare_eq_gt.mpr more]
    exact iff_of_false Bool.false_ne_true (by omega)

theorem digitsPositive (d : Digits x m e) : 0 < x := by
  show decide (((0 : Float).toModel.unpack.compare x.toModel.unpack == some .lt) = true) = true
  rw [d.unpacked]
  rfl

theorem digitsOne : Digits 1 4503599627370496 (-52) := ⟨by decide,by decide,by decide,by decide,by decide,rfl⟩

/-- What is left of a count after it was rounded to 53 digits. -/
def mark (n : Nat) (e : Int) : Int := stacked (nearest n (n.log2 - 52)) (e + n.log2 - 52)

theorem fullNonzero (full : 52 ≤ n.log2) : n ≠ 0 := by
  rintro rfl
  exact absurd full (by decide)

theorem nearestDigits (full : 52 ≤ n.log2) :
    4503599627370496 ≤ nearest n (n.log2 - 52) ∧ nearest n (n.log2 - 52) ≤ 9007199254740992 :=
  ⟨@nearestFull n _ 52 (fullNonzero full) (by omega),@nearestShort n _ 52 (by omega)⟩

theorem markMono (full : 52 ≤ n.log2) (h : n ≤ k) : mark n e ≤ mark k e := by
  have digits := log2Mono h
  unfold mark stacked
  rcases Nat.lt_or_eq_of_le digits with fewer | same
  · have upper := (nearestDigits full).2
    have lower := (nearestDigits (Nat.le_trans full digits)).1
    omega
  · rw [same]
    have rounded := @nearestMono _ _ (k.log2 - 52) h
    omega

theorem markScaled (full : 52 ≤ n.log2) (j : Nat) : mark (n * 2 ^ j) e = mark n (e + j) := by
  have drop : n.log2 + j - 52 = n.log2 - 52 + j := by omega
  unfold mark
  rw [log2Scaled (fullNonzero full),drop,nearestScaled]
  congr 1
  omega

theorem targetDouble (m : Nat) (e : Int) :
    Format.binary64.targetExponent (totalExponent m e) = max (m.log2 + 1 + e - 53) (-1074) := rfl

theorem shiftDouble (m : Nat) (e : Int) : shiftToTargetExponent .binary64 m e .exact =
    (ExtendedMantissa.ofMantissaAndAccuracy m .exact >>> (max (m.log2 + 1 + e - 53) (-1074) - e).toNat,
      e + (max (m.log2 + 1 + e - 53) (-1074) - e).toNat) := rfl

theorem roundedDigits (full : 52 ≤ n.log2) (low : -1022 ≤ e + n.log2) (high : e + n.log2 < 1023)
    (packed : x.toModel = .pack (roundWithAccuracy .binary64 .positive n e .exact)) :
    ∃ m f, Digits x m f ∧ stacked m f = mark n e := by
  obtain ⟨lower,upper⟩ := nearestDigits full
  have drop : (max (n.log2 + 1 + e - 53) (-1074) - e).toNat = n.log2 - 52 := by omega
  have place : e + (n.log2 - 52 : Nat) = e + n.log2 - 52 := by omega
  unfold roundWithAccuracy at packed
  rw [shiftDouble,drop,place] at packed
  dsimp only at packed
  rw [shiftedRounded] at packed
  unfold mark
  generalize nearest n (n.log2 - 52) = r at upper lower packed
  rcases Nat.lt_or_eq_of_le upper with fits | carries
  · rw [shiftFits .binary64 fits (show -1074 ≤ _ by omega)] at packed
    dsimp only at packed
    rw [dif_neg (by omega)] at packed
    exact ⟨r,_,⟨by omega,lower,fits,by omega,by omega,packed⟩,rfl⟩
  · -- the digits start anew and the exponent grows by one, which is one and the same count
    subst carries
    have carried : shiftToTargetExponent .binary64 9007199254740992 (e + n.log2 - 52) .exact =
        (⟨4503599627370496,false,false⟩,e + n.log2 - 52 + 1) := shiftCarries .binary64 (show -1074 ≤ _ by omega)
    rw [carried] at packed
    dsimp only at packed
    rw [dif_neg (by decide)] at packed
    refine ⟨_,_,⟨by decide,by decide,by decide,by omega,by omega,packed⟩,?_⟩
    unfold stacked
    omega

theorem markBetween (full : 52 ≤ n.log2) : stacked 4503599627370496 (e + n.log2 - 52) ≤ mark n e ∧
    mark n e ≤ stacked 4503599627370496 (e + n.log2 - 51) := by
  have rounded := nearestDigits full
  unfold mark stacked
  omega

theorem wordOf (h : n < 18446744073709551616) : n.toUInt64.toNat = n := UInt64.toNat_ofNat_of_lt' h

theorem countRounded (positive : 0 < n) (word : n < 18446744073709551616) :
    n.toUInt64.toFloat.toModel = .pack (roundWithAccuracy .binary64 .positive (n * 2 ^ (52 - n.log2))
      (-(52 - n.log2 : Nat)) .exact) := by
  have small : n.log2 < 64 := (Nat.log2_lt (Nat.ne_of_gt positive)).mpr word
  have spread : (0 - max ((n.log2 : Int) + 1 + 0 - 53) (-1074)).toNat = 52 - n.log2 := by omega
  show Float.Model.pack (.normalize .binary64 (n.toUInt64.toNat : Int) 0 .positive) = _
  unfold UnpackedFloat.normalize
  rw [wordOf word,Int.compare_eq_gt.mpr (by omega)]
  show Float.Model.pack (roundWithAccuracy .binary64 .positive
    (n <<< (0 - max ((n.log2 : Int) + 1 + 0 - 53) (-1074)).toNat)
    (0 - (0 - max ((n.log2 : Int) + 1 + 0 - 53) (-1074)).toNat) .exact) = _
  rw [spread,Nat.shiftLeft_eq,Int.zero_sub]

theorem countDigits (positive : 0 < n) (word : n < 18446744073709551616) :
    ∃ m e, Digits n.toUInt64.toFloat m e ∧ -52 ≤ e ∧ e < 13 ∧ stacked m e = mark (n * 2 ^ 52) (-52) := by
  have small : n.log2 < 64 := (Nat.log2_lt (Nat.ne_of_gt positive)).mpr word
  have spread := log2Scaled (Nat.ne_of_gt positive) (52 - n.log2)
  obtain ⟨m,e,d,same⟩ := roundedDigits (by omega) (by omega) (by omega) (countRounded positive word)
  have unit : mark (n * 2 ^ (52 - n.log2)) (-(52 - n.log2 : Nat)) = mark (n * 2 ^ 52) (-52) := by
    have scaled := @markScaled (n * 2 ^ (52 - n.log2)) (-52) (by omega) (52 - (52 - n.log2))
    have whole : 52 - n.log2 + (52 - (52 - n.log2)) = 52 := by omega
    have last : (-52 : Int) + (52 - (52 - n.log2) : Nat) = -(52 - n.log2 : Nat) := by omega
    rw [Nat.mul_assoc,← Nat.pow_add,whole,last] at scaled
    exact scaled.symm
  have bounds := @markBetween (n * 2 ^ (52 - n.log2)) (-(52 - n.log2 : Nat)) (by omega)
  rw [← same,spread] at bounds
  have least := d.least
  have most := d.most
  unfold stacked at bounds
  exact ⟨m,e,d,by omega,by omega,same.trans unit⟩

theorem Digits.width (d : Digits x m e) : m.log2 = 52 :=
  (Nat.log2_eq_iff (Nat.ne_of_gt d.positive)).mpr ⟨d.least,d.most⟩

theorem divided (dx : Digits x m e) (dy : Digits y k f) (near : -1021 ≤ e - f) : (x / y).toModel =
    .pack (roundWithAccuracy .binary64 .positive (m * 2 ^ 53 / k) (e - f - 53)
      (accuracyOfFraction (m * 2 ^ 53 % k) k)) := by
  have exponent : min (e - f) (max ((m.log2 + 1 + e) - (k.log2 + 1 + f) - 53) (-1074)) = e - f - 53 := by
    rw [dx.width,dy.width]
    omega
  have shift : (e - f - (e - f - 53)).toNat = 53 := by omega
  show Float.Model.pack (.div .binary64 x.toModel.unpack y.toModel.unpack) = _
  rw [dx.unpacked,dy.unpacked]
  show Float.Model.pack (roundWithAccuracy .binary64 .positive
    (m <<< (e - f - min (e - f) (max ((m.log2 + 1 + e) - (k.log2 + 1 + f) - 53) (-1074))).toNat / k)
    (min (e - f) (max ((m.log2 + 1 + e) - (k.log2 + 1 + f) - 53) (-1074)))
    (accuracyOfFraction
      (m <<< (e - f - min (e - f) (max ((m.log2 + 1 + e) - (k.log2 + 1 + f) - 53) (-1074))).toNat % k) k)) = _
  rw [exponent,shift,Nat.shiftLeft_eq]

theorem quotientWidth (dx : Digits x m e) (dy : Digits y k f) :
    52 ≤ (m * 2 ^ 53 / k).log2 ∧ (m * 2 ^ 53 / k).log2 ≤ 105 := by
  constructor
  · have widthX := dx.width
    have widthY := dy.width
    exact quotientDigits 52 dx.positive dy.positive (by omega)
  · have whole := log2Scaled (Nat.ne_of_gt dx.positive) 53
    rw [dx.width] at whole
    exact Nat.le_trans (log2Mono (Nat.div_le_self _ _)) (Nat.le_of_eq whole)

theorem quotientMarked (dx : Digits x m e) (dy : Digits y k f) (lowE : -52 ≤ e) (highE : e < 13)
    (lowF : -52 ≤ f) (highF : f < 13) : 52 ≤ (marked (m * 2 ^ 53 * 2 ^ (e + 52).toNat) k).log2 ∧
      ∃ q g, Digits (x / y) q g ∧
        stacked q g = mark (marked (m * 2 ^ 53 * 2 ^ (e + 52).toNat) k) (-f - 107) := by
  obtain ⟨wide,narrow⟩ := quotientWidth dx dy
  have quotient := markedQuotient dy.positive (m * 2 ^ 53) (e + 52).toNat
  have digits := @log2Shifted _ ((e + 52).toNat + 2) (by rw [quotient]; exact fullNonzero wide)
  rw [quotient] at digits
  have enough : e - f - 53 ≤ Format.binary64.targetExponent (totalExponent (m * 2 ^ 53 / k) (e - f - 53)) := by
    rw [targetDouble]
    omega
  have rounded := roundedQuotient .binary64 dy.positive (m * 2 ^ 53) (e + 52).toNat .positive enough
  -- the numerator keeps its exponent among its digits, so the unit is the same for all numerators
  have unit : e - f - 53 - (e + 52).toNat - 2 = -f - 107 := by omega
  refine ⟨by omega,roundedDigits (by omega) (by omega) (by omega) ?_⟩
  rw [divided dx dy (by omega),rounded,unit]

theorem countsMono (dx : Digits x m e) (dy : Digits y k f) (low : -52 ≤ e) (below : stacked m e ≤ stacked k f) :
    m * 2 ^ (e + 52).toNat ≤ k * 2 ^ (f + 52).toNat := by
  have most := dx.most
  have least := dy.least
  unfold stacked at below
  rcases Int.lt_or_eq_of_le (show e ≤ f by have := dx.least; have := dy.most; omega) with less | rfl
  · have wider : (e + 52).toNat + 1 ≤ (f + 52).toNat := by omega
    calc m * 2 ^ (e + 52).toNat ≤ k * 2 * 2 ^ (e + 52).toNat := Nat.mul_le_mul_right _ (by omega)
      _ = k * 2 ^ ((e + 52).toNat + 1) := by rw [Nat.pow_succ',Nat.mul_assoc]
      _ ≤ k * 2 ^ (f + 52).toNat := Nat.mul_le_mul_left _ (Nat.pow_le_pow_right (by decide) wider)
  · exact Nat.mul_le_mul_right _ (by omega)

theorem quotientSelf (positive : 0 < m) (low : -52 ≤ e) :
    mark (marked (m * 2 ^ 53 * 2 ^ (e + 52).toNat) m) (-e - 107) = stacked 4503599627370496 (-52) := by
  have power : marked (m * 2 ^ 53 * 2 ^ (e + 52).toNat) m = 2 ^ (55 + (e + 52).toNat) := by
    rw [marked,Nat.mul_assoc,Nat.mul_div_cancel_left _ positive,Nat.mul_mod_right,← Nat.pow_add]
    show 2 ^ 2 * _ + 0 = _
    rw [Nat.add_zero,← Nat.pow_add,← Nat.add_assoc]
  have whole : nearest (2 ^ (55 + (e + 52).toNat)) (55 + (e + 52).toNat - 52) = 4503599627370496 := by
    have split : 55 + (e + 52).toNat = 52 + (55 + (e + 52).toNat - 52) := by omega
    rw [split,Nat.pow_add,Nat.add_sub_cancel_left]
    exact nearestWhole (2 ^ 52) _
  rw [power,mark,Nat.log2_two_pow,whole]
  congr 1
  omega

end

section
variable {placed later total : Nat}

theorem fractionPositive (some : 0 < placed) (within : placed ≤ total) (word : total < 18446744073709551616) :
    0 < fraction placed total := by
  obtain ⟨m,e,dx,lowE,highE,_⟩ := countDigits some (Nat.lt_of_le_of_lt within word)
  obtain ⟨k,f,dy,lowF,highF,_⟩ := countDigits (Nat.lt_of_lt_of_le some within) word
  obtain ⟨_,_,_,d,_⟩ := quotientMarked dx dy lowE highE lowF highF
  exact digitsPositive d

theorem fractionMono (some : 0 < placed) (before : placed ≤ later) (within : later ≤ total)
    (word : total < 18446744073709551616) : fraction placed total ≤ fraction later total := by
  obtain ⟨m,e,dx,lowE,highE,first⟩ := countDigits some (by omega)
  obtain ⟨m',e',dx',lowE',highE',second⟩ := countDigits (show 0 < later by omega) (by omega)
  obtain ⟨k,f,dy,lowF,highF,_⟩ := countDigits (show 0 < total by omega) word
  obtain ⟨wide,q,g,d,same⟩ := quotientMarked dx dy lowE highE lowF highF
  obtain ⟨_,q',g',d',same'⟩ := quotientMarked dx' dy lowE' highE' lowF highF
  have full : 52 ≤ (placed * 2 ^ 52).log2 := by
    rw [log2Scaled (by omega)]
    exact Nat.le_add_left ..
  have counts := countsMono dx dx' lowE
    (by rw [first,second]; exact markMono full (Nat.mul_le_mul_right _ before))
  refine (digitsLe d d').mpr ?_
  rw [same,same']
  refine markMono wide (markedMono ?_)
  rw [Nat.mul_right_comm m,Nat.mul_right_comm m']
  exact Nat.mul_le_mul_right _ counts

theorem fractionWhole (some : 0 < total) (word : total < 18446744073709551616) : fraction total total = 1 := by
  obtain ⟨k,f,d,low,high,_⟩ := countDigits some word
  obtain ⟨_,q,g,quotient,same⟩ := quotientMarked d d low high low high
  exact digitsSame quotient digitsOne (same.trans (quotientSelf d.positive low))

end
end Sightline.Progress
