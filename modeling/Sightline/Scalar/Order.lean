import Sightline.Scalar
/-! The order of single precision numbers seen as an order of natural numbers. `rank` numbers the
bit patterns from minus infinity upwards, both zeros alike; away from NaN the three comparisons of
core are exactly the three comparisons of ranks. A NaN compares with nothing, so a number that is
less than another has a smaller rank without further assumptions, and a search that only ever moves
to larger numbers ends. Nothing is said about rounding. -/
namespace Sightline.Scalar
open Float.Model (Format UnpackedFloat)
open Float.Model.UnpackedFloat (Sign)

def place (n : Nat) : Nat := if n < 2147483648 then 2147483648 + n else 4294967296 - n

def rank (x : Scalar) : Nat := place (toWord x).toNat

theorem rankBound (x : Scalar) : rank x ≤ 4294967296 := by
  have h := (toWord x).toNat_lt
  unfold rank place
  split <;> omega

def signOf (n : Nat) : Sign := if n / 2147483648 % 2 = 0 then .positive else .negative

def decoded (n : Nat) : UnpackedFloat :=
  if n / 8388608 % 256 = 255 then
    if n % 8388608 = 0 then .infinity (signOf n) else .notANumber
  else if n / 8388608 % 256 = 0 then
    if h : n % 8388608 = 0 then .zero (signOf n)
    else .finite (signOf n) (n % 8388608) (-149) (Nat.pos_of_ne_zero h)
  else .finite (signOf n) (8388608 + n % 8388608) ((n / 8388608 % 256 : Nat) - 150)
    (Nat.lt_of_lt_of_le (by decide) (Nat.le_add_right _ _))

theorem finiteCongr {s s' : Sign} {m m' : Nat} {e e' : Int} {h : 0 < m} {h' : 0 < m'} (hs : s = s')
    (hm : m = m') (he : e = e') :
    UnpackedFloat.finite s m e h = UnpackedFloat.finite s' m' e' h' := by
  subst hs hm he; rfl

theorem unpackDecoded (w : UInt32) :
    UnpackedFloat.unpack Format.binary32 w.toBitVec = decoded w.toNat := by
  have hm : (@UnpackedFloat.unpackMantissa Format.binary32 w.toBitVec).toNat =
      w.toNat % 8388608 := by
    simp [UnpackedFloat.unpackMantissa]
  have he : (@UnpackedFloat.unpackExponent Format.binary32 w.toBitVec).toNat =
      w.toNat / 8388608 % 256 := by
    simp [UnpackedFloat.unpackExponent, Nat.shiftRight_eq_div_pow]
  have hs : (@UnpackedFloat.unpackSign Format.binary32 w.toBitVec).toNat =
      w.toNat / 2147483648 % 2 := by
    delta UnpackedFloat.unpackSign
    simp [Nat.shiftRight_eq_div_pow]
  have sign : Sign.ofBitVec (@UnpackedFloat.unpackSign Format.binary32 w.toBitVec) =
      signOf w.toNat := by
    simp only [Sign.ofBitVec, signOf, ← BitVec.toNat_inj, hs]; rfl
  have ones : @UnpackedFloat.unpackExponent Format.binary32 w.toBitVec =
      -1#(Format.binary32.exponentBits) ↔ w.toNat / 8388608 % 256 = 255 := by
    rw [← BitVec.toNat_inj,he]; rfl
  have zero : @UnpackedFloat.unpackExponent Format.binary32 w.toBitVec =
      0#(Format.binary32.exponentBits) ↔ w.toNat / 8388608 % 256 = 0 := by
    rw [← BitVec.toNat_inj,he]; rfl
  have none : @UnpackedFloat.unpackMantissa Format.binary32 w.toBitVec =
      0#(Format.binary32.mantissaBitsWithoutImplicit) ↔ w.toNat % 8388608 = 0 := by
    rw [← BitVec.toNat_inj,hm]; rfl
  unfold UnpackedFloat.unpack decoded
  dsimp only
  by_cases top : w.toNat / 8388608 % 256 = 255
  · rw [if_pos (ones.mpr top),if_pos top]
    by_cases blank : w.toNat % 8388608 = 0
    · rw [if_pos (none.mpr blank),if_pos blank,sign]
    · rw [if_neg (mt none.mp blank),if_neg blank]
  by_cases bottom : w.toNat / 8388608 % 256 = 0
  · rw [if_neg (mt ones.mp top),if_neg top,if_pos (zero.mpr bottom),if_pos bottom]
    by_cases blank : w.toNat % 8388608 = 0
    · rw [dif_pos (none.mpr blank),dif_pos blank,sign]
    · rw [dif_neg (mt none.mp blank),dif_neg blank]
      exact finiteCongr sign hm (by rw [he,bottom]; rfl)
  · rw [if_neg (mt ones.mp top),if_neg top,if_neg (mt zero.mp bottom),if_neg bottom]
    refine finiteCongr sign ?_ (by rw [he]; rfl)
    rw [BitVec.toNat_append,hm]
    show 1 <<< 23 ||| _ = _
    rw [Nat.shiftLeft_eq,Nat.mul_comm,← Nat.two_pow_add_eq_or_of_lt (Nat.mod_lt _ (by decide))]

theorem compareLt {a b : Nat} (h : a < b) : compare a b = .lt := Nat.compare_eq_lt.mpr h
theorem compareGt {a b : Nat} (h : b < a) : compare a b = .gt := Nat.compare_eq_gt.mpr h
theorem compareEq {a b : Nat} (h : a = b) : compare a b = .eq := Nat.compare_eq_eq.mpr h

theorem compareMagnitude {e f : Int} {m k r q : Nat} (lt : e < f → r < q) (gt : f < e → q < r)
    (eq : e = f → (m < k → r < q) ∧ (k < m → q < r) ∧ (m = k → r = q)) :
    (compare e f).then (compare m k) = compare r q := by
  rcases Int.lt_trichotomy e f with h | h | h
  · rw [compareLt (lt h), Int.compare_eq_lt.mpr h]; rfl
  · rw [Int.compare_eq_eq.mpr h]
    obtain ⟨l,g,s⟩ := eq h
    rcases Nat.lt_trichotomy m k with h | h | h
    · rw [compareLt h, compareLt (l h)]; rfl
    · rw [compareEq h, compareEq (s h)]; rfl
    · rw [compareGt h, compareGt (g h)]; rfl
  · rw [compareGt (gt h), Int.compare_eq_gt.mpr h]; rfl

theorem compareMagnitudeSwap {e f : Int} {m k r q : Nat} (lt : e < f → q < r) (gt : f < e → r < q)
    (eq : e = f → (m < k → q < r) ∧ (k < m → r < q) ∧ (m = k → r = q)) :
    ((compare e f).then (compare m k)).swap = compare r q := by
  rw [compareMagnitude (r := q) (q := r) lt gt
    (fun h => ⟨(eq h).1,(eq h).2.1,fun s => ((eq h).2.2 s).symm⟩), Nat.compare_swap]

/- The three kinds of numbers, by the 31 bits behind the sign: infinity is the greatest, zero the
least, and in between the mantissa has its leading one unless the exponent bits are all zero. -/
theorem numberShapes {n : Nat} (number : decoded n ≠ .notANumber) :
    (decoded n = .infinity (signOf n) ∧ n % 2147483648 = 2139095040) ∨
    (decoded n = .zero (signOf n) ∧ n % 2147483648 = 0) ∨
    ∃ m e h, decoded n = .finite (signOf n) m e h ∧
      ((m = n % 2147483648 ∧ m < 8388608 ∧ e = -149) ∨
        (8388608 ≤ m ∧ m < 16777216 ∧ -149 ≤ e ∧ e < 105 ∧
          (n % 2147483648 : Nat) = (e + 149) * 8388608 + m)) := by
  by_cases top : n / 8388608 % 256 = 255
  · by_cases blank : n % 8388608 = 0
    · exact .inl ⟨by rw [decoded,if_pos top,if_pos blank],by omega⟩
    · exact absurd (by rw [decoded,if_pos top,if_neg blank]) number
  by_cases bottom : n / 8388608 % 256 = 0
  · by_cases blank : n % 8388608 = 0
    · exact .inr (.inl ⟨by rw [decoded,if_neg top,if_pos bottom,dif_pos blank],by omega⟩)
    · exact .inr (.inr ⟨_,_,_,by rw [decoded,if_neg top,if_pos bottom,dif_neg blank],
        .inl ⟨by omega,by omega,rfl⟩⟩)
  · exact .inr (.inr ⟨_,_,_,by rw [decoded,if_neg top,if_neg bottom],.inr (by omega)⟩)

theorem signPlus {n : Nat} (h : n < 2147483648) :
    signOf n = .positive ∧ place n = 2147483648 + n :=
  ⟨if_pos (by omega),if_pos h⟩

theorem signMinus {n : Nat} (h : ¬n < 2147483648) (top : n < 4294967296) :
    signOf n = .negative ∧ place n = 4294967296 - n :=
  ⟨if_neg (by omega),if_neg h⟩

theorem compareDecoded {n k : Nat} (hn : n < 4294967296) (hk : k < 4294967296)
    (nn : decoded n ≠ .notANumber) (nk : decoded k ≠ .notANumber) :
    (decoded n).compare (decoded k) = some (compare (place n) (place k)) := by
  have shapeN := numberShapes nn
  have shapeK := numberShapes nk
  by_cases pn : n < 2147483648 <;> by_cases pk : k < 2147483648
  · rw [(signPlus pn).1] at shapeN
    rw [(signPlus pk).1] at shapeK
    rw [(signPlus pn).2,(signPlus pk).2]
    rcases shapeN with ⟨dn,rn⟩ | ⟨dn,rn⟩ | ⟨m,e,mPos,dn,rn⟩ <;>
      rcases shapeK with ⟨dk,rk⟩ | ⟨dk,rk⟩ | ⟨l,f,lPos,dk,rk⟩ <;> rw [dn,dk]
    · exact congrArg some (compareEq (by omega)).symm
    · exact congrArg some (compareGt (by omega)).symm
    · exact congrArg some (compareGt (by omega)).symm
    · exact congrArg some (compareLt (by omega)).symm
    · exact congrArg some (compareEq (by omega)).symm
    · exact congrArg some (compareLt (by omega)).symm
    · exact congrArg some (compareLt (by omega)).symm
    · exact congrArg some (compareGt (by omega)).symm
    · exact congrArg some (compareMagnitude (by omega) (by omega) (by omega))
  · rw [(signPlus pn).1] at shapeN
    rw [(signMinus pk hk).1] at shapeK
    rw [(signPlus pn).2,(signMinus pk hk).2]
    rcases shapeN with ⟨dn,rn⟩ | ⟨dn,rn⟩ | ⟨m,e,mPos,dn,rn⟩ <;>
      rcases shapeK with ⟨dk,rk⟩ | ⟨dk,rk⟩ | ⟨l,f,lPos,dk,rk⟩ <;> rw [dn,dk]
    case inr.inl.inr.inl => exact congrArg some (compareEq (by omega)).symm
    all_goals exact congrArg some (compareGt (by omega)).symm
  · rw [(signMinus pn hn).1] at shapeN
    rw [(signPlus pk).1] at shapeK
    rw [(signMinus pn hn).2,(signPlus pk).2]
    rcases shapeN with ⟨dn,rn⟩ | ⟨dn,rn⟩ | ⟨m,e,mPos,dn,rn⟩ <;>
      rcases shapeK with ⟨dk,rk⟩ | ⟨dk,rk⟩ | ⟨l,f,lPos,dk,rk⟩ <;> rw [dn,dk]
    case inr.inl.inr.inl => exact congrArg some (compareEq (by omega)).symm
    all_goals exact congrArg some (compareLt (by omega)).symm
  · rw [(signMinus pn hn).1] at shapeN
    rw [(signMinus pk hk).1] at shapeK
    rw [(signMinus pn hn).2,(signMinus pk hk).2]
    rcases shapeN with ⟨dn,rn⟩ | ⟨dn,rn⟩ | ⟨m,e,mPos,dn,rn⟩ <;>
      rcases shapeK with ⟨dk,rk⟩ | ⟨dk,rk⟩ | ⟨l,f,lPos,dk,rk⟩ <;> rw [dn,dk]
    · exact congrArg some (compareEq (by omega)).symm
    · exact congrArg some (compareLt (by omega)).symm
    · exact congrArg some (compareLt (by omega)).symm
    · exact congrArg some (compareGt (by omega)).symm
    · exact congrArg some (compareEq (by omega)).symm
    · exact congrArg some (compareGt (by omega)).symm
    · exact congrArg some (compareGt (by omega)).symm
    · exact congrArg some (compareLt (by omega)).symm
    · exact congrArg some (compareMagnitudeSwap (by omega) (by omega) (by omega))

theorem unpacked (x : Scalar) : x.toModel.unpack = decoded (toWord x).toNat :=
  unpackDecoded (toWord x)

theorem decodedOfNumber {x : Scalar} (h : Float32.isNaN x = false) :
    decoded (toWord x).toNat ≠ .notANumber := by
  intro same
  rw [← unpacked] at same
  have : x.toModel.unpack.isNaN = false := h
  rw [same] at this
  contradiction

theorem decodedOfNan {x : Scalar} (h : Float32.isNaN x = true) :
    x.toModel.unpack = .notANumber := by
  have h : x.toModel.unpack.isNaN = true := h
  cases e : x.toModel.unpack with
  | notANumber => rfl
  | infinity s => rw [e] at h; contradiction
  | zero s => rw [e] at h; contradiction
  | finite s m n p => rw [e] at h; contradiction

theorem compareRank {x y : Scalar} (hx : Float32.isNaN x = false) (hy : Float32.isNaN y = false) :
    x.toModel.compare y.toModel = some (compare (rank x) (rank y)) := by
  show x.toModel.unpack.compare y.toModel.unpack = _
  rw [unpacked,unpacked,compareDecoded (toWord x).toNat_lt (toWord y).toNat_lt
    (decodedOfNumber hx) (decodedOfNumber hy)]
  rfl

theorem compareNan {x y : Scalar} (h : Float32.isNaN x = true ∨ Float32.isNaN y = true) :
    x.toModel.compare y.toModel = none := by
  show x.toModel.unpack.compare y.toModel.unpack = none
  rcases h with h | h
  · rw [decodedOfNan h]; rfl
  · rw [decodedOfNan h]; cases x.toModel.unpack <;> rfl

theorem ltIff {x y : Scalar} (hx : Float32.isNaN x = false) (hy : Float32.isNaN y = false) :
    x < y ↔ rank x < rank y := by
  show decide ((x.toModel.compare y.toModel == some .lt) = true) = true ↔ _
  rw [compareRank hx hy]
  simp [Nat.compare_eq_lt]

theorem leIff {x y : Scalar} (hx : Float32.isNaN x = false) (hy : Float32.isNaN y = false) :
    x ≤ y ↔ rank x ≤ rank y := by
  show decide (((x.toModel.compare y.toModel).any (·.isLE)) = true) = true ↔ _
  rw [compareRank hx hy]
  simp [Nat.isLE_compare]

theorem beqIff {x y : Scalar} (hx : Float32.isNaN x = false) (hy : Float32.isNaN y = false) :
    (x == y) = true ↔ rank x = rank y := by
  show (x.toModel.compare y.toModel == some .eq) = true ↔ _
  rw [compareRank hx hy]
  simp

theorem numbersOfComparable {x y : Scalar} (h : x.toModel.compare y.toModel ≠ none) :
    Float32.isNaN x = false ∧ Float32.isNaN y = false :=
  ⟨Bool.eq_false_iff.mpr fun nan => h (compareNan (.inl nan)),
    Bool.eq_false_iff.mpr fun nan => h (compareNan (.inr nan))⟩

theorem ltNumbers {x y : Scalar} (h : x < y) :
    Float32.isNaN x = false ∧ Float32.isNaN y = false := by
  have h : decide ((x.toModel.compare y.toModel == some .lt) = true) = true := h
  refine numbersOfComparable fun none => ?_
  rw [none] at h
  contradiction

theorem leNumbers {x y : Scalar} (h : x ≤ y) :
    Float32.isNaN x = false ∧ Float32.isNaN y = false := by
  have h : decide (((x.toModel.compare y.toModel).any (·.isLE)) = true) = true := h
  refine numbersOfComparable fun none => ?_
  rw [none] at h
  contradiction

theorem rankLt {x y : Scalar} (h : x < y) : rank x < rank y :=
  (ltIff (ltNumbers h).1 (ltNumbers h).2).mp h

theorem ltIrrefl (x : Scalar) : ¬x < x := fun h => Nat.lt_irrefl _ (rankLt h)

theorem ltTrans {x y z : Scalar} (h : x < y) (k : y < z) : x < z :=
  (ltIff (ltNumbers h).1 (ltNumbers k).2).mpr (Nat.lt_trans (rankLt h) (rankLt k))

theorem ltOfNotLe {x y : Scalar} (hx : Float32.isNaN x = false) (hy : Float32.isNaN y = false)
    (h : ¬y ≤ x) : x < y :=
  (ltIff hx hy).mpr (Nat.lt_of_not_le fun k => h ((leIff hy hx).mpr k))

end Sightline.Scalar
