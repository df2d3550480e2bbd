import Sightline.Proofs.Outward
import Sightline.Proofs.Overflow

/-! How far out a tile lies. The key of a tile is made from the rounded square of the distance between two centers.
That square is a number and never minus zero, so in every picture the tiles are in the order of their distances. Where
the squared diagonal of the picture stays below 2 ^ 24 nothing is rounded on the way: places are whole numbers of half
pixels and squares are whole numbers of quarters, so the order is that of the true distances. -/
namespace Sightline.Scalar
open Float.Model (UnpackedFloat)
open Float.Model.UnpackedFloat (Sign)

def Whole (n : Nat) : Prop := 2 ^ dropped 0 n ∣ n

structure Exactly (x : Scalar) (n : Int) : Prop where
  finite : Float32.isFinite x = true
  counted : count x = n

structure Within (x : Scalar) (digits : Nat) : Prop where
  finite : Float32.isFinite x = true
  short : units x ≤ 2 ^ digits

section
variable {n k m : Nat}

theorem wholeShort (short : m < 16777216) (j : Nat) : Whole (m * 2 ^ j) := by
  by_cases none : m = 0
  · rw [none,Nat.zero_mul]
    exact Nat.dvd_zero _
  · have digits := log2Fits short
    have scaled := log2Scaled none j
    exact Nat.dvd_trans (Nat.pow_dvd_pow 2 (by unfold dropped; omega)) (Nat.dvd_mul_left _ _)

theorem wholeLevel (whole : Whole n) :
    level 0 n = min 2139095040 (dropped 0 n * 8388608 + n / 2 ^ dropped 0 n) := by
  have kept := nearestWhole (n / 2 ^ dropped 0 n) (dropped 0 n)
  rw [Nat.div_mul_cancel whole] at kept
  rw [level,kept,Nat.sub_zero]

theorem wholeLess (wholeN : Whole n) (wholeK : Whole k) (less : n < k) (room : level 0 k < 2139095040) :
    level 0 n < level 0 k := by
  have digits := log2Mono (Nat.le_of_lt less)
  rw [wholeLevel wholeK] at room ⊢
  rw [wholeLevel wholeN]
  refine minLess ?_ room
  have drops : dropped 0 n ≤ dropped 0 k := by
    unfold dropped
    omega
  rcases Nat.lt_or_eq_of_le drops with fewer | same
  · have upper : n / 2 ^ dropped 0 n < 2 ^ 24 := by
      rw [Nat.div_lt_iff_lt_mul (Nat.two_pow_pos _),← Nat.pow_add]
      exact Nat.lt_of_lt_of_le Nat.lt_log2_self (Nat.pow_le_pow_right (by decide) (by unfold dropped; omega))
    have lower : 2 ^ 23 ≤ k / 2 ^ dropped 0 k := by
      rw [Nat.le_div_iff_mul_le (Nat.two_pow_pos _),← Nat.pow_add]
      refine Nat.le_trans (Nat.pow_le_pow_right (by decide) ?_) (Nat.log2_self_le (by omega))
      unfold dropped at fewer ⊢
      omega
    omega
  · have quotients : n / 2 ^ dropped 0 k < k / 2 ^ dropped 0 k := by
      obtain ⟨q,spelled⟩ := wholeK
      rw [Nat.div_lt_iff_lt_mul (Nat.two_pow_pos _),Nat.div_mul_cancel ⟨q,spelled⟩]
      exact less
    rw [same]
    omega

end

section
variable {x y : Scalar} {n k : Int} {fine j : Nat}

theorem unitsWhole (finite : Float32.isFinite x = true) : Whole (units x) := by
  rcases finiteCases finite with zero | ⟨s,m,e,positive,spelled⟩
  · rw [unitsZero zero]
    exact Nat.dvd_zero _
  · obtain ⟨digits,_,_⟩ := finiteDigits spelled
    rw [unitsFinite spelled]
    exact wholeShort (by omega) _

theorem levelFinite (finite : Float32.isFinite x = true) : level 0 (units x) < 2139095040 := by
  rw [levelBelow,Nat.pow_zero,Nat.mul_one]
  exact unitsBelow finite

theorem placedWithin (placed : Placed x (mirrored (level fine) n)) (short : n.natAbs ≤ 2 ^ (j + fine))
    (room : j ≤ 252) : Within x j := by
  have power : 2 ^ j < brink := Nat.lt_of_le_of_lt (Nat.pow_le_pow_right (by decide) room) (by decide)
  have finite : Float32.isFinite x = true := by
    rw [placedBrink placed]
    rw [Nat.pow_add] at short
    exact Nat.lt_of_le_of_lt short (Nat.mul_lt_mul_of_pos_right power (Nat.two_pow_pos fine))
  refine ⟨finite,Nat.le_of_not_lt fun more => ?_⟩
  have most := @levelMono _ _ fine short
  rw [Nat.pow_add] at most
  have scaled := levelScaled 0 (2 ^ j) fine
  have one : Whole (2 ^ j) := Nat.one_mul (2 ^ j) ▸ wholeShort (by decide) j
  have own := (placedUnits placed).2
  have apart := wholeLess one (unitsWhole finite) more (levelFinite finite)
  rw [own,mirroredAbs] at apart
  rw [Nat.zero_add] at scaled
  omega

theorem wholeCounted (finite : Float32.isFinite x = true) (placed : Placed x (mirrored (level 0) n))
    (whole : Whole n.natAbs) : count x = n := by
  obtain ⟨signed,levels⟩ := placedUnits placed
  rw [mirroredAbs] at levels
  have top := levelFinite finite
  have same : (count x).natAbs = n.natAbs := by
    rw [countAbs]
    rcases Nat.lt_trichotomy (units x) n.natAbs with less | same | more
    · have apart := wholeLess (unitsWhole finite) whole less (levels ▸ top)
      omega
    · exact same
    · have apart := wholeLess whole (unitsWhole finite) more top
      omega
  by_cases none : n = 0
  · omega
  · have some : 0 < level 0 n.natAbs := levelPositive (by omega)
    unfold mirrored at signed
    rw [same] at signed
    split at signed <;> split at signed <;> omega

theorem placedExactly (placed : Placed x (mirrored (level fine) (k * (2 ^ (j + fine) : Nat))))
    (short : k.natAbs < 16777216) (room : j ≤ 252) : Exactly x (k * (2 ^ j : Nat)) := by
  have scaled := mirroredScaled 0 fine (k * (2 ^ j : Nat))
  rw [Int.mul_assoc,← Int.natCast_mul,← Nat.pow_add,Nat.zero_add] at scaled
  rw [scaled] at placed
  have size : (k * (2 ^ j : Nat)).natAbs = k.natAbs * 2 ^ j := by rw [Int.natAbs_mul,Int.natAbs_natCast]
  have below : (k * (2 ^ j : Nat)).natAbs < brink := by
    rw [size]
    exact Nat.lt_of_lt_of_le (Nat.mul_lt_mul_of_pos_right short (Nat.two_pow_pos j))
      (Nat.mul_le_mul (by decide) (Nat.pow_le_pow_right (by decide) room))
  have finite : Float32.isFinite x = true := by
    rw [placedBrink placed,Nat.pow_zero,Nat.mul_one]
    exact below
  exact ⟨finite,wholeCounted finite placed (size ▸ wholeShort short j)⟩

-- one is 2 ^ 149 finest units, so half a pixel is 2 ^ 148 of them and a quarter 2 ^ 147
theorem indexPlaced (i : UInt32) : Placed (ofIndex i) (mirrored (level 0) (i.toNat * (2 ^ 149 : Nat))) :=
  @normalizedCount 0 i.toNat (by decide)

theorem halfPlaced (finite : Float32.isFinite x = true) : Placed (x / 2) (mirrored (level 1) (count x)) := by
  have two : (2 : Scalar).toModel.unpack = .finite .positive 8388608 (-22) (by decide) := rfl
  have placed := quotientCount (finiteNumber finite) two
  have doubled : units 2 = 2 ^ 150 := rfl
  have below : ¬2 ^ 277 ≤ units x := fun past => Nat.ne_of_lt (levelFinite finite) (levelPast past)
  have whole : marked (units x * 2 ^ 253) (2 ^ 150) = units x * 2 ^ 105 := by
    have scaled := @markedScaled (2 ^ 150) (units x * 2 ^ 103) 1 (by decide)
    have remainder : residue 0 1 = 0 := rfl
    rw [Nat.mul_assoc,← Nat.pow_add,Nat.one_mul] at scaled
    rw [scaled,marked,Nat.div_one,Nat.mod_one,remainder]
    omega
  have halved : portion (2 ^ 150) (units x) = level 1 (units x) := by
    rw [portion,if_neg below,whole]
    exact levelScaled 1 (units x) 105
  have same : mirrored (portion (2 ^ 150)) (count x) = mirrored (level 1) (count x) := by
    unfold mirrored
    rw [countAbs,halved]
  rw [doubled,same] at placed
  exact placed

theorem squareFromZero (finite : Float32.isFinite x = true) : 0 ≤ x * x := by
  have placed := productCount finite finite
  have ranked := placed.ranked
  rw [fromZero placed.number]
  -- a square is counted from zero upwards
  rw [← Int.natAbs_mul_self] at ranked
  unfold mirrored at ranked
  rw [if_neg (by omega)] at ranked
  omega

end

section
variable {x y : Scalar}

def Plain (x : Scalar) : Prop := (toWord x).toNat < 2147483648

theorem countOrder (numberX : Float32.isNaN x = false) (numberY : Float32.isNaN y = false) :
    x ≤ y ↔ count x ≤ count y :=
  ⟨countMono,fun below => (placedLe (placedCount numberX) (placedCount numberY)).mpr (mirroredMono levelMono below)⟩

theorem plainKey (plain : Plain x) : sortKey x = rank x - 2147483648 := by
  unfold Plain at plain
  unfold sortKey rank place
  dsimp only
  rw [if_pos plain,if_pos plain]
  omega

theorem plainOrder (plainX : Plain x) (plainY : Plain y) (numberX : Float32.isNaN x = false)
    (numberY : Float32.isNaN y = false) : sortKey x ≤ sortKey y ↔ x ≤ y := by
  rw [plainKey plainX,plainKey plainY,leIff numberX numberY]
  omega

theorem squarePlain (x : Scalar) : Plain (x * x) := by
  have square s : s * s = Sign.positive := by cases s <;> rfl
  show (UnpackedFloat.pack .binary32 (.mul .binary32 x.toModel.unpack x.toModel.unpack)).toNat < 2147483648
  cases x.toModel.unpack with
  | notANumber => decide
  | infinity s => cases s <;> decide
  | zero s => cases s <;> decide
  | finite s m e positive =>
    show (UnpackedFloat.pack .binary32 (.roundWithAccuracy .binary32 (s * s) (m * m) (e + e) .exact)).toNat < _
    rw [square]
    -- with the sign in front the same digits are a word
    have signed := roundedSign .negative (m * m) (e + e) .exact
    have word : _ < 4294967296 :=
      (UnpackedFloat.pack .binary32 (.roundWithAccuracy .binary32 .negative (m * m) (e + e) .exact)).isLt
    have sign : Sign.negative.toBitVec.toNat = 1 := rfl
    rw [signed,sign] at word
    omega

theorem plainZero (plain : Plain x) (none : rank x = 2147483648) : x = 0 := by
  unfold Plain at plain
  unfold rank place at none
  rw [if_pos plain] at none
  have word : toWord x = 0 := UInt32.toNat_inj.mp (by rw [UInt32.toNat_zero]; omega)
  rw [← wordsUnpacked x,word]
  rfl

theorem sumPlain (plainX : Plain x) (plainY : Plain y) (hx : 0 ≤ x) (hy : 0 ≤ y) : Plain (x + y) := by
  obtain ⟨number,ranked⟩ := sumLevel hx hy
  by_cases none : units x + units y = 0
  · have zeroX : x = 0 := plainZero plainX (by rw [rankUnits hx,Nat.eq_zero_of_add_eq_zero_right none]; rfl)
    have zeroY : y = 0 := plainZero plainY (by rw [rankUnits hy,Nat.eq_zero_of_add_eq_zero_left none]; rfl)
    rw [zeroX,zeroY]
    unfold Plain
    decide +kernel
  · have some : 0 < level 0 (units x + units y) := levelPositive (by omega)
    have word := (toWord (x + y)).toNat_lt
    unfold rank place at ranked
    unfold Plain
    split at ranked <;> omega

end
end Sightline.Scalar

namespace Sightline.Tile
open Sightline.Scalar (Exactly Within Plain placedExactly placedWithin)

def offset (start side whole : UInt32) : Int := 2 * start.toNat + side.toNat - whole.toNat

/-- The square of twice the distance between the center of a tile and that of the picture. -/
def reach (width height : UInt32) (t : Tile) : Int :=
  offset t.x t.width width * offset t.x t.width width + offset t.y t.height height * offset t.y t.height height

def drift (start side whole : UInt32) : Scalar :=
  Scalar.ofIndex start + Scalar.ofIndex side / 2 - Scalar.ofIndex whole / 2

section
variable {start side whole width height : UInt32} {s t : Tile}

theorem indexWithin (i : UInt32) : Within (Scalar.ofIndex i) 181 := by
  refine placedWithin (Scalar.indexPlaced i) ?_ (by decide)
  have word := i.toNat_lt
  omega

theorem halfWithin (i : UInt32) : Within (Scalar.ofIndex i / 2) 180 := by
  have within := indexWithin i
  refine placedWithin (Scalar.halfPlaced within.finite) ?_ (by decide)
  rw [Scalar.countAbs]
  exact within.short

theorem driftWithin (start side whole : UInt32) : Within (drift start side whole) 183 := by
  have middle : Within (Scalar.ofIndex start + Scalar.ofIndex side / 2) 182 := by
    refine placedWithin (Scalar.sumCount (indexWithin start).finite (halfWithin side).finite) ?_ (by decide)
    have first := (indexWithin start).short
    have second := (halfWithin side).short
    rw [← Scalar.countAbs] at first second
    omega
  refine placedWithin (Scalar.differenceCount middle.finite (halfWithin whole).finite) ?_ (by decide)
  have first := middle.short
  have second := (halfWithin whole).short
  rw [← Scalar.countAbs] at first second
  omega

theorem eccentricityPlain (width height : UInt32) (t : Tile) :
    0 ≤ eccentricity width height t ∧ Plain (eccentricity width height t) := by
  have across := Scalar.squareFromZero (driftWithin t.x t.width width).finite
  have down := Scalar.squareFromZero (driftWithin t.y t.height height).finite
  exact ⟨Scalar.sumFromZero across down,
    Scalar.sumPlain (Scalar.squarePlain (drift t.x t.width width)) (Scalar.squarePlain (drift t.y t.height height))
      across down⟩

theorem outwardOrder (width height : UInt32) (s t : Tile) :
    outwardKey width height s ≤ outwardKey width height t ↔
      drift s.x s.width width * drift s.x s.width width + drift s.y s.height height * drift s.y s.height height ≤
        drift t.x t.width width * drift t.x t.width width + drift t.y t.height height * drift t.y t.height height := by
  obtain ⟨aboveS,plainS⟩ := eccentricityPlain width height s
  obtain ⟨aboveT,plainT⟩ := eccentricityPlain width height t
  exact Scalar.plainOrder plainS plainT (Scalar.leNumbers aboveS).2 (Scalar.leNumbers aboveT).2

theorem halfExactly (short : side.toNat < 16777216) :
    Exactly (Scalar.ofIndex side / 2) (side.toNat * (2 ^ 148 : Nat)) := by
  obtain ⟨finite,counted⟩ := @placedExactly _ side.toNat 0 149 (Scalar.indexPlaced side) short (by decide)
  have placed := Scalar.halfPlaced finite
  rw [counted] at placed
  exact placedExactly placed short (by decide)

theorem driftExactly (inside : start.toNat + side.toNat ≤ whole.toNat) (modest : whole.toNat < 4096) :
    Exactly (drift start side whole) (offset start side whole * (2 ^ 148 : Nat)) := by
  obtain ⟨finiteStart,countStart⟩ := @placedExactly _ start.toNat 0 149 (Scalar.indexPlaced start) (by omega) (by decide)
  obtain ⟨finiteSide,countSide⟩ := @halfExactly side (by omega)
  obtain ⟨finiteWhole,countWhole⟩ := @halfExactly whole (by omega)
  have middle : Exactly (Scalar.ofIndex start + Scalar.ofIndex side / 2)
      ((2 * start.toNat + side.toNat : Int) * (2 ^ 148 : Nat)) := by
    refine @placedExactly _ _ 0 148 ?_ (by omega) (by decide)
    have placed := Scalar.sumCount finiteStart finiteSide
    rw [countStart,countSide] at placed
    have same : (start.toNat * (2 ^ 149 : Nat) + side.toNat * (2 ^ 148 : Nat) : Int) =
      (2 * start.toNat + side.toNat : Int) * (2 ^ 148 : Nat) := by omega
    exact same ▸ placed
  refine @placedExactly _ _ 0 148 ?_ (by unfold offset; omega) (by decide)
  have placed := Scalar.differenceCount middle.finite finiteWhole
  rw [middle.counted,countWhole,← Int.sub_mul] at placed
  exact placed

theorem offsetShort (inside : start.toNat + side.toNat ≤ whole.toNat) :
    (offset start side whole * offset start side whole).natAbs ≤ whole.toNat * whole.toNat := by
  have short : (offset start side whole).natAbs ≤ whole.toNat := by
    unfold offset
    omega
  rw [Int.natAbs_mul]
  exact Nat.mul_le_mul short short

theorem squareExactly (inside : start.toNat + side.toNat ≤ whole.toNat)
    (modest : whole.toNat * whole.toNat < 16777216) : Exactly (drift start side whole * drift start side whole)
      (offset start side whole * offset start side whole * (2 ^ 147 : Nat)) := by
  have narrow : whole.toNat < 4096 := by
    by_contra wide
    have large := Nat.mul_le_mul (Nat.le_of_not_lt wide) (Nat.le_of_not_lt wide)
    omega
  obtain ⟨finite,counted⟩ := driftExactly inside narrow
  refine @placedExactly _ _ 149 147 ?_ (Nat.lt_of_le_of_lt (offsetShort inside) modest) (by decide)
  have placed := Scalar.productCount finite finite
  rw [counted] at placed
  have units : offset start side whole * (2 ^ 148 : Nat) * (offset start side whole * (2 ^ 148 : Nat)) =
      offset start side whole * offset start side whole * (2 ^ (147 + 149) : Nat) := by
    have powers : 2 ^ (147 + 149) = 2 ^ 148 * 2 ^ 148 := by rw [← Nat.pow_add]
    rw [mul_mul_mul_comm,← Int.natCast_mul,powers]
  exact units ▸ placed

theorem eccentricityExactly (inside : t.Inside width.toNat height.toNat)
    (modest : width.toNat * width.toNat + height.toNat * height.toNat < 16777216) :
    Exactly (eccentricity width height t) (reach width height t * (2 ^ 147 : Nat)) := by
  have across := squareExactly inside.right (by omega)
  have down := squareExactly inside.bottom (by omega)
  have shortAcross := offsetShort inside.right
  have shortDown := offsetShort inside.bottom
  refine @placedExactly _ _ 0 147 ?_ (by unfold reach; omega) (by decide)
  have placed := Scalar.sumCount across.finite down.finite
  rw [across.counted,down.counted,← Int.add_mul] at placed
  exact placed

theorem reachOrder (insideS : s.Inside width.toNat height.toNat) (insideT : t.Inside width.toNat height.toNat)
    (modest : width.toNat * width.toNat + height.toNat * height.toNat < 16777216) :
    outwardKey width height s ≤ outwardKey width height t ↔ reach width height s ≤ reach width height t := by
  obtain ⟨aboveS,plainS⟩ := eccentricityPlain width height s
  obtain ⟨aboveT,plainT⟩ := eccentricityPlain width height t
  have numberS := (Scalar.leNumbers aboveS).2
  have numberT := (Scalar.leNumbers aboveT).2
  rw [outwardKey,outwardKey,Scalar.plainOrder plainS plainT numberS numberT,Scalar.countOrder numberS numberT,
    (eccentricityExactly insideS modest).counted,(eccentricityExactly insideT modest).counted]
  omega

theorem gridOutward {size : UInt32} {tiles : List Tile} (cut : grid width height size = .ok tiles)
    (modest : width.toNat * width.toNat + height.toNat * height.toNat < 16777216) :
    tiles.Pairwise fun s t => reach width height s < reach width height t ∨
      reach width height s = reach width height t ∧ ReadsBefore s t := by
  refine (gridOrdered cut).imp_of_mem fun {s t} memberS memberT before => ?_
  have insideS := gridInside cut s memberS
  have insideT := gridInside cut t memberT
  have below := reachOrder insideS insideT modest
  have above := reachOrder insideT insideS modest
  rcases before with less | ⟨same,reads⟩
  · exact .inl (by omega)
  · exact .inr ⟨by omega,reads⟩

end
end Sightline.Tile
