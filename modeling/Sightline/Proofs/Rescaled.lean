import Sightline.Proofs.Overflow
import Sightline.Proofs.Pruned
import Sightline.Mesh

/-! Meshes that are moved to the origin and scaled. Half of a rounded sum lies between zero and the sum, so taking the
center of the bounds away leaves finite positions finite unless the bounds add up past the greatest number. The largest
magnitude that is left decides about scaling: if its product with the scale is finite then so is every other one. A
scale itself is infinite where that magnitude is too small for the size that is asked for. Around finite positions the
new bounds lie as they should. -/
namespace Sightline

namespace Box
variable {ps : Array Vec3}

theorem ofPointsBoxes (ps : List Vec3) : ofPoints ps = ofBoxes (ps.map ofPoint) := by
  rw [ofPoints,ofBoxes,List.foldl_map]
  rfl

theorem hullOfPoints (nonempty : ps ≠ #[]) (finite : ∀ p ∈ ps, p.Finite) :
    (ofPoints ps.toList).Hull (ps.toList.map ofPoint) ∧ (ofPoints ps.toList).Solid := by
  have some : ps.toList.map ofPoint ≠ [] := by simpa using nonempty
  have solid : ∀ b ∈ ps.toList.map ofPoint, b.Solid :=
    List.forall_mem_map.mpr fun p member => pointSolid (finite p (Array.mem_toList_iff.mp member))
  rw [ofPointsBoxes]
  have hull := hullOfBoxes some fun b member => (solid b member).finite
  exact ⟨hull,hullSolid some hull solid⟩

theorem ofPointsContains (finite : ∀ p ∈ ps, p.Finite) : ∀ p ∈ ps, (ofPoints ps.toList).contains (ofPoint p) = true := by
  intro p member
  obtain ⟨hull,_⟩ := hullOfPoints (Array.ne_empty_of_mem member) finite
  exact hull.contains _ (List.mem_map_of_mem (Array.mem_toList_iff.mpr member))

end Box

namespace Vec3

def magnitudes (v : Vec3) : List Scalar := Axis.all.map fun a => Float32.abs (v.component a)

theorem largestExtreme {v : Vec3} (finite : v.Finite) :
    Scalar.Extreme (fun x y => y ≤ x) v.abs.largestComponent v.magnitudes := by
  have self a := Scalar.extremeSelf Scalar.largerPicks (Scalar.finiteNumber (Scalar.finiteAbs (finite a)))
  exact Scalar.extremeAppend Scalar.largerPicks (self .x) (Scalar.extremeAppend Scalar.largerPicks (self .y) (self .z))

theorem finiteScaled {v : Vec3} {scale : Scalar} :
    (v * scale).Finite ↔ ∀ a, Float32.isFinite (v.component a * scale) = true :=
  forall_congr' fun a => by cases a <;> exact Iff.rfl

instance (v : Vec3) : Decidable v.Finite :=
  decidable_of_iff (∀ a ∈ Axis.all, Float32.isFinite (v.component a) = true) ⟨fun h a => h a a.memAll,fun h a _ => h a⟩

end Vec3

namespace Mesh
variable {ps : Array Vec3} {size scale : Scalar}

theorem magnitudeFold (qs : List Vec3) (finite : ∀ p ∈ qs, p.Finite) {acc : Scalar} {xs : List Scalar}
    (h : Scalar.Extreme (fun x y => y ≤ x) acc xs) :
    Scalar.Extreme (fun x y => y ≤ x) (qs.foldl (fun acc p => Scalar.larger acc p.abs.largestComponent) acc)
      (xs ++ qs.flatMap Vec3.magnitudes) := by
  induction qs generalizing acc xs with
  | nil => simpa using h
  | cons p rest ih =>
    obtain ⟨first,others⟩ := List.forall_mem_cons.mp finite
    have next := ih others (Scalar.extremeAppend Scalar.largerPicks h (Vec3.largestExtreme first))
    rwa [List.append_assoc] at next

theorem largestMagnitudes (finite : ∀ p ∈ ps, p.Finite) : 0 ≤ largestMagnitude ps ∧
    (∀ p ∈ ps, ∀ a, Float32.abs (p.component a) ≤ largestMagnitude ps) ∧
    (0 < largestMagnitude ps → ∃ p ∈ ps, ∃ a, (largestMagnitude ps == Float32.abs (p.component a)) = true) := by
  obtain ⟨above,attained⟩ := magnitudeFold ps.toList (fun p member => finite p (Array.mem_toList_iff.mp member))
    (Scalar.extremeSelf Scalar.largerPicks Scalar.zeroNumber)
  rw [Array.foldl_toList] at above attained
  refine ⟨above 0 (List.mem_append_left _ (List.mem_singleton.mpr rfl)),fun p member a => ?_,fun positive => ?_⟩
  · refine above _ (List.mem_append_right _ (List.mem_flatMap.mpr ⟨p,Array.mem_toList_iff.mpr member,?_⟩))
    exact List.mem_map_of_mem a.memAll
  · obtain ⟨x,member,same⟩ := attained
    rcases List.mem_append.mp member with zero | found
    · cases List.mem_singleton.mp zero
      exact absurd (Scalar.ltOfLtLe positive (Scalar.sameIff.mp same).1) (Scalar.ltIrrefl 0)
    · obtain ⟨p,there,component⟩ := List.mem_flatMap.mp found
      obtain ⟨a,_,rfl⟩ := List.mem_map.mp component
      exact ⟨p,Array.mem_toList_iff.mp there,a,same⟩

theorem largestFinite (finite : ∀ p ∈ ps, p.Finite) : Float32.isFinite (largestMagnitude ps) = true := by
  obtain ⟨from0,_,attained⟩ := largestMagnitudes finite
  by_cases positive : 0 < largestMagnitude ps
  · obtain ⟨p,member,a,same⟩ := attained positive
    exact Scalar.finiteSame same (Scalar.finiteAbs (finite p member a))
  · have zero : Float32.isFinite 0 = true := rfl
    have below := Scalar.leOfNotLt (Scalar.leNumbers from0).2 Scalar.zeroNumber positive
    exact Scalar.finiteBetween zero zero from0 below

theorem scaledFinite (finite : ∀ p ∈ ps, p.Finite) (positive : 0 < largestMagnitude ps) (scale : Scalar) :
    (∀ p ∈ ps, (p * scale).Finite) ↔ Float32.isFinite (largestMagnitude ps * scale) = true := by
  obtain ⟨_,above,attained⟩ := largestMagnitudes finite
  obtain ⟨p,member,a,same⟩ := attained positive
  have units : (largestMagnitude ps).units = (p.component a).units :=
    (Scalar.unitsSame same).trans (Scalar.absUnits (finite p member a)).2
  have largest := largestFinite finite
  constructor
  · intro scaled
    have product := Vec3.finiteScaled.mp (scaled p member) a
    have finiteS := (Scalar.finiteProduct product).2
    rw [Scalar.productFinite (finite p member a) finiteS] at product
    rwa [Scalar.productFinite largest finiteS,units]
  · intro product q there
    refine Vec3.finiteScaled.mpr fun b => ?_
    have finiteS := (Scalar.finiteProduct product).2
    rw [Scalar.productFinite largest finiteS] at product
    have magnitude := Scalar.absUnits (finite q there b)
    have fewer := Scalar.unitsMono magnitude.1 (above q there b)
    rw [magnitude.2] at fewer
    rw [Scalar.productFinite (finite q there b) finiteS]
    exact Nat.lt_of_le_of_lt (Nat.mul_le_mul_right _ fewer) product

section
variable {positions : Array Vec3} {indices : Array UInt32} {normals : Option (Array Vec3)} {m : Mesh}

def moved (m : Mesh) : Array Vec3 := m.positions.map (· - m.center)

def Centered (m : Mesh) : Prop :=
  ∀ a, Float32.isFinite (m.bounds.bottom.component a + m.bounds.top.component a) = true

theorem movedFinite (finite : ∀ p ∈ positions, p.Finite) (nonempty : positions ≠ #[]) :
    (∀ p ∈ (ofParts positions indices normals).moved, p.Finite) ↔ (ofParts positions indices normals).Centered := by
  have component p a : (p - (ofParts positions indices normals).center).component a = p.component a -
      ((Box.ofPoints positions.toList).bottom.component a + (Box.ofPoints positions.toList).top.component a) *
        (0.5 : Scalar) := by
    cases a <;> rfl
  rw [moved,Array.forall_mem_map]
  constructor
  · intro moved a
    obtain ⟨p,member⟩ := Array.exists_mem_of_ne_empty _ nonempty
    have difference := moved p member a
    rw [component] at difference
    exact (Scalar.finiteProduct (Scalar.finiteDifference difference).2).1
  · intro sums p member a
    obtain ⟨_,solid⟩ := Box.hullOfPoints nonempty finite
    obtain ⟨above,below⟩ := (Box.containsIff _ _).mp (Box.ofPointsContains finite p member) a
    rw [component]
    exact Scalar.centeredFinite (solid.finite.bottom a) (solid.finite.top a) (sums a) above below

theorem rescaledParts (nonempty : m.positions ≠ #[]) (size : Scalar) :
    (m.recenterAndRescale size).positions = (if 0 < largestMagnitude m.moved then
      m.moved.map (fun p : Vec3 => p * (size / largestMagnitude m.moved)) else m.moved) ∧
    (m.recenterAndRescale size).bounds = .ofPoints (m.recenterAndRescale size).positions.toList := by
  have some : ¬m.positions.isEmpty = true := fun none => nonempty (Array.isEmpty_iff.mp none)
  unfold recenterAndRescale
  rw [if_neg some]
  exact ⟨rfl,rfl⟩

theorem rescaledIff (finite : ∀ p ∈ positions, p.Finite) (nonempty : positions ≠ #[]) (size : Scalar) :
    (∀ p ∈ ((ofParts positions indices normals).recenterAndRescale size).positions, p.Finite) ↔
      (ofParts positions indices normals).Centered ∧ (0 < largestMagnitude (ofParts positions indices normals).moved →
        Float32.isFinite (largestMagnitude (ofParts positions indices normals).moved *
          (size / largestMagnitude (ofParts positions indices normals).moved)) = true) := by
  have centered := @movedFinite positions indices normals finite nonempty
  have parts := (@rescaledParts (ofParts positions indices normals) nonempty size).1
  rw [parts]
  generalize (ofParts positions indices normals).moved = ps at *
  by_cases positive : 0 < largestMagnitude ps
  · rw [if_pos positive,Array.forall_mem_map]
    constructor
    · intro scaled
      have unscaled : ∀ p ∈ ps, p.Finite := fun p member a =>
        (Scalar.finiteProduct (Vec3.finiteScaled.mp (scaled p member) a)).1
      exact ⟨centered.mp unscaled,fun _ => (scaledFinite unscaled positive _).mp scaled⟩
    · intro ⟨center,largest⟩
      exact (scaledFinite (centered.mpr center) positive _).mpr (largest positive)
  · rw [if_neg positive,centered]
    exact ⟨fun center => ⟨center,fun above => absurd above positive⟩,And.left⟩

theorem emptyRescaled (empty : m.positions = #[]) (size : Scalar) : m.recenterAndRescale size = m :=
  if_pos (Array.isEmpty_iff.mpr empty)

theorem scaleFits {x size : Scalar} (finite : Float32.isFinite x = true) (positive : 0 < x) (some : 0 < size)
    (modest : size ≤ Scalar.greatest * 0.5) :
    Float32.isFinite (x * (size / x)) = true ↔ size.units < 33554431 * 2 ^ 103 * x.units := by
  have finiteHalf : Float32.isFinite (Scalar.greatest * 0.5) = true := rfl
  have finiteS := Scalar.finiteBelow (Scalar.leOfLt some) modest finiteHalf
  rcases Scalar.finiteCases finite with zero | ⟨s,m,e,_,right⟩
  · obtain ⟨below,_⟩ := Scalar.sameIff.mp (Scalar.zeroIff.mpr zero)
    exact absurd (Scalar.ltOfLtLe positive below) (Scalar.ltIrrefl 0)
  rw [← Scalar.quotientFinite finiteS right]
  refine ⟨fun product => (Scalar.finiteProduct product).2,fun quotient => ?_⟩
  have twice := Scalar.quotientTwice finiteS right quotient
  have half : (Scalar.greatest * 0.5).units * 2 ^ 150 < Scalar.brink * 2 ^ 149 := by decide +kernel
  rw [Scalar.productFinite finite quotient,Nat.mul_comm]
  calc (size / x).units * x.units ≤ size.units * 2 ^ 150 := twice
    _ ≤ (Scalar.greatest * 0.5).units * 2 ^ 150 := Nat.mul_le_mul_right _ (Scalar.unitsMono (Scalar.leOfLt some) modest)
    _ < Scalar.brink * 2 ^ 149 := half

theorem modestCentered (finite : ∀ p ∈ positions, p.Finite) (nonempty : positions ≠ #[])
    (modest : ∀ p ∈ positions, ∀ a, Float32.abs (p.component a) ≤ Scalar.greatest * 0.5) :
    (ofParts positions indices normals).Centered := by
  obtain ⟨hull,solid⟩ := Box.hullOfPoints nonempty finite
  have small {x : Scalar} {p : Vec3} {a : Axis} (member : p ∈ positions) (same : (x == p.component a) = true) :
      x.units ≤ (Scalar.greatest * 0.5).units := by
    obtain ⟨above,magnitude⟩ := Scalar.absUnits (finite p member a)
    rw [Scalar.unitsSame same,← magnitude]
    exact Scalar.unitsMono above (modest p member a)
  intro a
  obtain ⟨_,member,bottom⟩ := hull.bottom a
  obtain ⟨_,member',top⟩ := hull.top a
  obtain ⟨p,there,rfl⟩ := List.mem_map.mp member
  obtain ⟨q,there',rfl⟩ := List.mem_map.mp member'
  have first := small (Array.mem_toList_iff.mp there) bottom
  have second := small (Array.mem_toList_iff.mp there') top
  have twice : (Scalar.greatest * 0.5).units + (Scalar.greatest * 0.5).units < Scalar.brink := by decide +kernel
  refine (Scalar.sumFinite (solid.finite.bottom a) (solid.finite.top a)).mpr ?_
  refine Nat.lt_of_le_of_lt (Int.natAbs_add_le _ _) (Nat.lt_of_le_of_lt ?_ twice)
  rw [Scalar.countAbs,Scalar.countAbs]
  exact Nat.add_le_add first second

theorem modestFinite {size : Scalar} (finite : ∀ p ∈ positions, p.Finite)
    (modest : ∀ p ∈ positions, ∀ a, Float32.abs (p.component a) ≤ Scalar.greatest * 0.5)
    (large : Scalar.ofWord 0x00800000 ≤ largestMagnitude (ofParts positions indices normals).moved)
    (some : 0 < size) (small : size ≤ 2) :
    ∀ p ∈ ((ofParts positions indices normals).recenterAndRescale size).positions, p.Finite := by
  by_cases empty : positions = #[]
  · have none : (ofParts positions indices normals).positions = #[] := empty
    rw [emptyRescaled none,none]
    exact fun p member => absurd member (Array.not_mem_empty p)
  · have centered := @modestCentered positions indices normals finite empty modest
    refine (rescaledIff finite empty size).mpr ⟨centered,fun positive => ?_⟩
    have largest := largestFinite ((movedFinite finite empty).mpr centered)
    have two : (2 : Scalar) ≤ Scalar.greatest * 0.5 := by decide +kernel
    refine (scaleFits largest positive some (Scalar.leTrans small two)).mpr ?_
    have least : 0 ≤ Scalar.ofWord 0x00800000 := by decide +kernel
    have room : (2 : Scalar).units < 33554431 * 2 ^ 103 * (Scalar.ofWord 0x00800000).units := by decide +kernel
    calc size.units ≤ (2 : Scalar).units := Scalar.unitsMono (Scalar.leOfLt some) small
      _ < 33554431 * 2 ^ 103 * (Scalar.ofWord 0x00800000).units := room
      _ ≤ 33554431 * 2 ^ 103 * (largestMagnitude (ofParts positions indices normals).moved).units :=
        Nat.mul_le_mul_left _ (Scalar.unitsMono least large)

theorem rescaledFinite (positions : Array Vec3) (indices : Array UInt32) (normals : Option (Array Vec3)) (size : Scalar)
    (finite : ∀ p ∈ positions, p.Finite) :
    let m := ofParts positions indices normals
    let rescaled := m.recenterAndRescale size
    let largest := largestMagnitude m.moved
    ((∀ p ∈ rescaled.positions, p.Finite) ↔
      positions = #[] ∨ m.Centered ∧ (0 < largest → Float32.isFinite (largest * (size / largest)) = true)) ∧
    ((∀ p ∈ rescaled.positions, p.Finite) →
      ∀ p ∈ rescaled.positions, rescaled.bounds.contains (.ofPoint p) = true) ∧
    (m.Centered → 0 < largest → 0 < size → size ≤ Scalar.greatest * 0.5 →
      (Float32.isFinite (largest * (size / largest)) = true ↔ size.units < 33554431 * 2 ^ 103 * largest.units)) := by
  intro m rescaled largest
  by_cases empty : positions = #[]
  · have same : rescaled = m := emptyRescaled empty size
    have none : m.positions = #[] := empty
    have zero : largest = 0 := by simp [largest,moved,none,largestMagnitude]
    rw [same,none,zero]
    refine ⟨iff_of_true (fun p member => absurd member (Array.not_mem_empty p)) (.inl empty),fun _ p member => ?_,?_⟩
    · exact absurd member (Array.not_mem_empty p)
    · exact fun _ positive => absurd positive (Scalar.ltIrrefl 0)
  · refine ⟨(rescaledIff finite empty size).trans (or_iff_right empty).symm,fun kept p member => ?_,?_⟩
    · rw [(rescaledParts empty size).2]
      exact Box.ofPointsContains kept p member
    · intro centered positive some modest
      exact scaleFits (largestFinite ((movedFinite finite empty).mpr centered)) positive some modest

end

def wedge : Mesh := ofParts #[⟨0,0,0⟩,⟨2,0,0⟩,⟨0,1,0⟩] #[0,1,2] none

theorem wedgeRescaled : (∀ p ∈ wedge.positions, p.Finite) ∧ (wedge.recenterAndRescale viewingSize).positions.size = 3 ∧
    (∀ p ∈ (wedge.recenterAndRescale viewingSize).positions, p.Finite ∧
      (wedge.recenterAndRescale viewingSize).bounds.contains (.ofPoint p) = true) ∧
    viewingSize.units < 33554431 * 2 ^ 103 * (largestMagnitude wedge.moved).units := by
  have finite : ∀ p ∈ wedge.positions, p.Finite := by decide +kernel
  have centered : ∀ a ∈ Axis.all,
      Float32.isFinite (wedge.bounds.bottom.component a + wedge.bounds.top.component a) = true := by decide +kernel
  have largest : Float32.isFinite (largestMagnitude wedge.moved * (viewingSize / largestMagnitude wedge.moved)) = true := by
    decide +kernel
  obtain ⟨stays,bounds,modest⟩ := rescaledFinite wedge.positions wedge.indices wedge.normals viewingSize finite
  have kept := stays.mpr (.inr ⟨fun a => centered a a.memAll,fun _ => largest⟩)
  refine ⟨finite,by decide +kernel,fun p member => ⟨kept p member,bounds kept p member⟩,?_⟩
  exact (modest (fun a => centered a a.memAll) (by decide +kernel) (by decide +kernel) (by decide +kernel)).mp largest

def speck : Mesh := ofParts #[⟨Scalar.ofWord 1,0,0⟩,⟨Scalar.ofWord 0x80000001,0,0⟩] #[0,1,0] none

def remote : Mesh := ofParts #[⟨Scalar.greatest,0,0⟩] #[0,0,0] none

/- The speck would have to become larger by more than any number says, and the sum of the bounds of the other mesh is
infinite. -/
theorem speckLost : (0 < viewingSize ∧ Float32.isFinite viewingSize = true) ∧
    ((∀ p ∈ speck.positions, p.Finite) ∧ ¬∀ p ∈ (speck.recenterAndRescale viewingSize).positions, p.Finite) ∧
    (∀ p ∈ remote.positions, p.Finite) ∧ ¬∀ p ∈ (remote.recenterAndRescale viewingSize).positions, p.Finite := by
  decide +kernel

end Mesh
end Sightline
