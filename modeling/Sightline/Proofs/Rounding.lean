import Sightline.Proofs.Alike
import Mathlib.Algebra.Group.Nat.Defs

/-! Rounding what is not negative. An exact result is so many units of some power of two. Rounding such a count
drops binary digits from its end and goes to the nearest count that is left, to the even one of two. The bit
pattern of the result is read off the number of digits that were dropped and off those that were kept, so it
grows with the count; and it is the pattern that rounding in core comes to, which shifts one digit at a time. -/
namespace Sightline.Scalar
open Float.Model (Format UnpackedFloat totalExponent)
open Float.Model.UnpackedFloat (ExtendedMantissa shiftToTargetExponent shiftToExponent
  roundWithAccuracy decreaseExponent)

section
variable {n k fine drop : Nat}

def nearest (n drop : Nat) : Nat :=
  let rest := 2 * (n % 2 ^ drop)
  if rest < 2 ^ drop then n / 2 ^ drop
  else if rest = 2 ^ drop then n / 2 ^ drop + n / 2 ^ drop % 2
  else n / 2 ^ drop + 1

theorem nearestBetween (n drop : Nat) : n / 2 ^ drop ≤ nearest n drop ∧ nearest n drop ≤ n / 2 ^ drop + 1 := by
  unfold nearest
  dsimp only
  split
  · omega
  · split <;> omega

theorem nearestMono (h : n ≤ k) : nearest n drop ≤ nearest k drop := by
  have quotients : n / 2 ^ drop ≤ k / 2 ^ drop := Nat.div_le_div_right h
  rcases Nat.lt_or_eq_of_le quotients with less | same
  · have upper := (nearestBetween n drop).2
    have lower := (nearestBetween k drop).1
    omega
  · have splitN := Nat.div_add_mod n (2 ^ drop)
    have splitK := Nat.div_add_mod k (2 ^ drop)
    unfold nearest
    dsimp only
    rw [same] at splitN ⊢
    split <;> split <;> (try split) <;> (try split) <;> omega

theorem nearestScaled (n drop j : Nat) : nearest (n * 2 ^ j) (drop + j) = nearest n drop := by
  have positive := Nat.two_pow_pos j
  have bits (r : Nat) : (2 * (r * 2 ^ j) < 2 ^ drop * 2 ^ j ↔ 2 * r < 2 ^ drop) ∧
      (2 * (r * 2 ^ j) = 2 ^ drop * 2 ^ j ↔ 2 * r = 2 ^ drop) := by
    rw [← Nat.mul_assoc]
    exact ⟨Nat.mul_lt_mul_right positive,Nat.mul_left_inj (Nat.ne_of_gt positive)⟩
  unfold nearest
  rw [Nat.pow_add,Nat.mul_div_mul_right _ _ positive,Nat.mul_mod_mul_right]
  simp only [(bits _).1,(bits _).2]

theorem nearestWhole (n drop : Nat) : nearest (n * 2 ^ drop) drop = n := by
  have whole := nearestScaled n 0 drop
  rw [Nat.zero_add] at whole
  rw [whole]
  simp [nearest,Nat.mod_one]

def dropped (fine n : Nat) : Nat := max fine (n.log2 - 23)

/-- The bits behind the sign of a count of units, each of them the finest unit halved so many times. -/
def level (fine n : Nat) : Nat :=
  min 2139095040 ((dropped fine n - fine) * 8388608 + nearest n (dropped fine n))

theorem nearestShort {digits : Nat} (h : n.log2 ≤ drop + digits) : nearest n drop ≤ 2 ^ (digits + 1) := by
  have below : n < 2 ^ (drop + (digits + 1)) :=
    Nat.lt_of_lt_of_le (@Nat.lt_log2_self n) (Nat.pow_le_pow_right (by decide) (by omega))
  have quotient : n / 2 ^ drop < 2 ^ (digits + 1) := by
    rw [Nat.div_lt_iff_lt_mul (Nat.two_pow_pos drop)]
    rwa [Nat.pow_add,Nat.mul_comm] at below
  exact Nat.le_trans (nearestBetween n drop).2 quotient

theorem nearestFull {digits : Nat} (nonzero : n ≠ 0) (h : n.log2 = drop + digits) : 2 ^ digits ≤ nearest n drop := by
  have above : 2 ^ (drop + digits) ≤ n := h ▸ Nat.log2_self_le nonzero
  have quotient : 2 ^ digits ≤ n / 2 ^ drop := by
    rw [Nat.le_div_iff_mul_le (Nat.two_pow_pos drop)]
    rwa [Nat.pow_add,Nat.mul_comm] at above
  exact Nat.le_trans quotient (nearestBetween n drop).1

theorem nearestAtMost (h : n.log2 ≤ drop + 23) : nearest n drop ≤ 16777216 := @nearestShort n drop 23 h

theorem nearestAtLeast (h : n.log2 = drop + 23) : 8388608 ≤ nearest n drop := by
  refine @nearestFull n drop 23 ?_ h
  rintro rfl
  rw [Nat.log2_zero] at h
  omega

theorem log2Mono (h : n ≤ k) : n.log2 ≤ k.log2 := by
  by_cases zero : n = 0
  · rw [zero,Nat.log2_zero]
    exact Nat.zero_le _
  · exact (Nat.le_log2 (by omega)).mpr (Nat.le_trans (Nat.log2_self_le zero) h)

theorem log2Fits (h : n < 16777216) : n.log2 ≤ 23 := by
  have most : Nat.log2 16777215 = 23 := rfl
  exact most ▸ log2Mono (Nat.le_of_lt_succ h)

theorem levelMono (h : n ≤ k) : level fine n ≤ level fine k := by
  have digits := log2Mono h
  have upper : nearest n (dropped fine n) ≤ 16777216 := nearestAtMost (by unfold dropped; omega)
  have drops : dropped fine n ≤ dropped fine k := by unfold dropped; omega
  refine Nat.le_min.mpr ⟨Nat.min_le_left _ _,Nat.le_trans (Nat.min_le_right _ _) ?_⟩
  rcases Nat.lt_or_eq_of_le drops with fewer | same
  · have lower : 8388608 ≤ nearest k (dropped fine k) := by
      refine nearestAtLeast ?_
      unfold dropped at fewer ⊢
      omega
    have least : fine ≤ dropped fine n := Nat.le_max_left _ _
    omega
  · rw [same]
    exact Nat.add_le_add_left (nearestMono h) _

end

section
variable {m k : Nat} {e : Int}

theorem shifted (m k : Nat) : ExtendedMantissa.ofMantissaAndAccuracy m .exact >>> k =
    ⟨m / 2 ^ k,decide (2 ^ k ≤ 2 * (m % 2 ^ k)),decide (2 * (m % 2 ^ k) % 2 ^ k ≠ 0)⟩ := by
  show Nat.repeat ExtendedMantissa.shiftRightOne k ⟨m,false,false⟩ = _
  induction k with
  | zero => simp [Nat.repeat,Nat.mod_one]
  | succ k ih =>
    have power : 2 ^ (k + 1) = 2 * 2 ^ k := Nat.pow_succ'
    have split : m % 2 ^ (k + 1) = m % 2 ^ k + 2 ^ k * (m / 2 ^ k % 2) := by rw [Nat.pow_succ,Nat.mod_mul]
    have small := Nat.mod_lt m (Nat.two_pow_pos k)
    have digit : m / 2 ^ k % 2 = 0 ∨ m / 2 ^ k % 2 = 1 := Nat.mod_two_eq_zero_or_one _
    have rest : 2 * (m % 2 ^ (k + 1)) % 2 ^ (k + 1) = 2 * (m % 2 ^ k) := by
      rw [split,power,Nat.mul_mod_mul_left,Nat.add_mul_mod_self_left,Nat.mod_eq_of_lt small]
    rw [Nat.repeat,ih,rest,split,power]
    refine (ExtendedMantissa.mk.injEq ..).mpr ⟨?_,?_,?_⟩
    · rw [Nat.div_div_eq_div_mul,Nat.mul_comm]
    · rcases digit with even | odd
      · simp [even,small]
      · simp [odd,Nat.mul_add]
    · have bits : (2 ^ k ≤ 2 * (m % 2 ^ k) ∨ 2 * (m % 2 ^ k) % 2 ^ k ≠ 0) ↔ 2 * (m % 2 ^ k) ≠ 0 := by
        by_cases low : 2 * (m % 2 ^ k) < 2 ^ k
        · rw [Nat.mod_eq_of_lt low]
          omega
        · have positive := Nat.two_pow_pos k
          omega
      rw [← Bool.decide_or,decide_eq_decide.mpr bits]

theorem shiftedRounded (m k : Nat) :
    (ExtendedMantissa.ofMantissaAndAccuracy m .exact >>> k).roundedMantissa = nearest m k := by
  have small := Nat.mod_lt m (Nat.two_pow_pos k)
  rw [shifted]
  unfold nearest
  generalize m % 2 ^ k = rest at small ⊢
  rcases Nat.lt_trichotomy (2 * rest) (2 ^ k) with low | tie | high
  · rw [if_pos low,Nat.mod_eq_of_lt low,decide_eq_false (Nat.not_le.mpr low)]
    cases decide (2 * rest ≠ 0) <;> rfl
  · rw [if_neg (by omega),if_pos tie,tie,Nat.mod_self,decide_eq_true (Nat.le_refl _)]
    rfl
  · have more : 2 * rest % 2 ^ k ≠ 0 := by
      rw [Nat.mod_eq_sub_mod (Nat.le_of_lt high),Nat.mod_eq_of_lt (by omega)]
      omega
    rw [if_neg (by omega),if_neg (by omega),decide_eq_true (Nat.le_of_lt high),decide_eq_true more]
    rfl

theorem target (m : Nat) (e : Int) :
    Format.binary32.targetExponent (totalExponent m e) = max (m.log2 + e - 23) (-149) := by
  simp only [Format.targetExponent,totalExponent]
  show max ((m.log2 : Int) + 1 + e - 24) (-149) = _
  omega

theorem shiftExact (m : Nat) (e : Int) : shiftToTargetExponent .binary32 m e .exact =
    (ExtendedMantissa.ofMantissaAndAccuracy m .exact >>> (max (m.log2 + e - 23) (-149) - e).toNat,
      e + (max (m.log2 + e - 23) (-149) - e).toNat) := by
  unfold shiftToTargetExponent shiftToExponent
  rw [target]

theorem shiftFits (spec : Format) (h : m < 2 ^ spec.mantissaBits) (low : spec.minExponent ≤ e) :
    shiftToTargetExponent spec m e .exact = (⟨m,false,false⟩,e) := by
  have several : 0 < spec.mantissaBits := Nat.lt_of_lt_of_le Nat.zero_lt_one (Nat.le_add_right _ _)
  have digits : m.log2 < spec.mantissaBits := by
    by_cases zero : m = 0
    · rw [zero,Nat.log2_zero]
      exact several
    · exact (Nat.log2_lt zero).mpr h
  have none : (spec.targetExponent (totalExponent m e) - e).toNat = 0 := by
    unfold Format.targetExponent totalExponent
    omega
  unfold shiftToTargetExponent shiftToExponent
  dsimp only
  rw [none]
  exact congrArg _ (Int.add_zero e)

theorem shiftCarries (spec : Format) (low : spec.minExponent ≤ e) :
    shiftToTargetExponent spec (2 ^ spec.mantissaBits) e .exact =
      (⟨2 ^ spec.mantissaBitsWithoutImplicit,false,false⟩,e + 1) := by
  have one : (spec.targetExponent (totalExponent (2 ^ spec.mantissaBits) e) - e).toNat = 1 := by
    unfold Format.targetExponent totalExponent
    rw [Nat.log2_two_pow]
    omega
  have digits : 2 ^ spec.mantissaBits = 2 ^ spec.mantissaBitsWithoutImplicit * 2 := by
    show 2 ^ (1 + spec.mantissaBitsWithoutImplicit) = _
    rw [Nat.add_comm,Nat.pow_succ]
  unfold shiftToTargetExponent shiftToExponent
  dsimp only
  rw [one]
  refine Prod.ext ((shifted _ 1).trans ?_) rfl
  rw [digits,Nat.pow_one,Nat.mul_div_cancel _ (by decide),Nat.mul_mod_left]
  rfl

theorem packedSize {positive : 0 < m} (low : -149 ≤ e)
    (shape : m < 8388608 ∧ e = -149 ∨ 8388608 ≤ m ∧ m < 16777216) :
    (UnpackedFloat.pack .binary32 (.finite .positive m e positive)).toNat =
      min 2139095040 ((e + 149).toNat * 8388608 + m) := by
  by_cases high : e < 105
  · rw [packedFinite low high shape]
    show 0 * 2147483648 + _ = _
    omega
  · have infinite : UnpackedFloat.pack .binary32 (.finite .positive m e positive) =
        UnpackedFloat.packedInfinity .binary32 .positive := by
      unfold UnpackedFloat.pack
      dsimp only
      rw [if_pos]
      show 256 ≤ (e + 127 + 23).toNat + 1
      omega
    rw [infinite]
    show 2139095040 = _
    omega

theorem log2Scaled (nonzero : m ≠ 0) (j : Nat) : (m * 2 ^ j).log2 = m.log2 + j := by
  induction j with
  | zero => rw [Nat.pow_zero,Nat.mul_one,Nat.add_zero]
  | succ j ih =>
    rw [Nat.pow_succ',Nat.mul_left_comm,
      Nat.log2_two_mul (Nat.mul_ne_zero nonzero (Nat.ne_of_gt (Nat.two_pow_pos j))),ih,Nat.add_assoc]

theorem roundedLevel (fine : Nat) (positive : 0 < m) (low : -149 - (fine : Int) ≤ e)
    (enough : e ≤ max (m.log2 + e - 23) (-149)) :
    (UnpackedFloat.pack .binary32 (roundWithAccuracy .binary32 .positive m e .exact)).toNat =
      level fine (m * 2 ^ (e + 149 + fine).toNat) := by
  obtain ⟨k,shift⟩ := Int.le.dest enough
  have shifts : (max (m.log2 + e - 23) (-149) - e).toNat = k := by omega
  have digits := log2Scaled (Nat.ne_of_gt positive) (e + 149 + fine).toNat
  have upper : nearest m k ≤ 16777216 := nearestAtMost (by omega)
  have lower : e + k = -149 ∨ 8388608 ≤ nearest m k := by
    by_cases least : e + k = -149
    · exact .inl least
    · exact .inr (nearestAtLeast (by omega))
  have drops : dropped fine (m * 2 ^ (e + 149 + fine).toNat) = k + (e + 149 + fine).toNat := by
    unfold dropped
    omega
  have spelled : level fine (m * 2 ^ (e + 149 + fine).toNat) =
      min 2139095040 ((e + k + 149).toNat * 8388608 + nearest m k) := by
    rw [level,drops,nearestScaled]
    congr 3
    omega
  unfold roundWithAccuracy
  rw [shiftExact,shifts]
  dsimp only
  rw [shiftedRounded,spelled]
  generalize nearest m k = r at upper lower
  -- rounding up may carry into one digit more, and then the exponent makes up for it
  rcases Nat.lt_or_eq_of_le upper with fits | carries
  · rw [shiftFits .binary32 fits (show -149 ≤ _ by omega)]
    dsimp only
    by_cases zero : r = 0
    · have least : (e + k + 149).toNat = 0 := by omega
      rw [dif_pos zero,zero,least]
      rfl
    · rw [dif_neg zero]
      exact packedSize (by omega) (by omega)
  · subst carries
    have carried : shiftToTargetExponent .binary32 16777216 (e + k) .exact = (⟨8388608,false,false⟩,e + k + 1) :=
      shiftCarries .binary32 (show -149 ≤ _ by omega)
    rw [carried]
    dsimp only
    rw [dif_neg (by decide),packedSize (by omega) (.inr (by decide))]
    exact congrArg (min 2139095040) (by omega)

theorem roundLevel (positive : 0 < m) (low : -149 ≤ e) :
    (UnpackedFloat.pack .binary32 (UnpackedFloat.round .binary32 .positive m e)).toNat =
      level 0 (m * 2 ^ (e + 149).toNat) := by
  unfold UnpackedFloat.round
  rw [target]
  unfold decreaseExponent
  dsimp only
  generalize shift : (e - max (m.log2 + e - 23) (-149)).toNat = j
  have digits := log2Scaled (Nat.ne_of_gt positive) j
  rw [Nat.shiftLeft_eq,roundedLevel 0 (Nat.mul_pos positive (Nat.two_pow_pos j)) (by omega) (by omega),
    Nat.mul_assoc,← Nat.pow_add]
  congr 3
  omega

end
end Sightline.Scalar
