import Sightline.Proofs.Nearest
import Sightline.Proofs.Slabs

/-! Rays that start nowhere or point nowhere. What is not finite stays so in sums, differences and products, and
above the line of a quotient; below it, it leaves zero or no number. So a ray with a part that is not finite meets the
plane of a triangle at its very start or at no finite parameter. In the second case the point is infinitely far away,
or its distance is no number, and neither lies below any limit. -/
namespace Sightline

namespace Scalar
open Float.Model (UnpackedFloat)
open Float.Model.UnpackedFloat (Sign)

def Lost (x : Scalar) : Prop := x = infinity ∨ Float32.isNaN x = true

section
variable {x y : Scalar}

theorem finitePacked {u : UnpackedFloat} (finite : Float32.isFinite (.ofModel (.pack u)) = true) :
    u.isFinite = true := by
  cases u with
  | zero s => rfl
  | finite s m e positive => rfl
  | infinity s =>
    have stray : ∀ s, Float32.isFinite (.ofModel (.pack (.infinity s))) = false := by
      intro s
      cases s <;> decide +kernel
    rw [stray] at finite
    contradiction
  | notANumber =>
    have stray : Float32.isFinite (.ofModel (.pack .notANumber)) = false := by decide +kernel
    rw [stray] at finite
    contradiction

end

def Loses (op : UnpackedFloat → UnpackedFloat → UnpackedFloat) : Prop :=
  ∀ u v, (op u v).isFinite = true → u.isFinite = true ∧ v.isFinite = true

theorem addLoses : Loses (.add .binary32) := by
  rintro (s | _ | s | ⟨s,m,e,p⟩) (t | _ | t | ⟨t,k,f,q⟩) kept <;> first
    | exact ⟨rfl,rfl⟩
    | exact absurd kept Bool.false_ne_true
    | cases s <;> cases t <;> exact absurd kept Bool.false_ne_true

theorem subLoses : Loses (.sub .binary32) := by
  rintro (s | _ | s | ⟨s,m,e,p⟩) (t | _ | t | ⟨t,k,f,q⟩) kept <;> first
    | exact ⟨rfl,rfl⟩
    | exact absurd kept Bool.false_ne_true
    | cases s <;> cases t <;> exact absurd kept Bool.false_ne_true

theorem mulLoses : Loses (.mul .binary32) := by
  rintro (s | _ | s | ⟨s,m,e,p⟩) (t | _ | t | ⟨t,k,f,q⟩) kept <;> first
    | exact ⟨rfl,rfl⟩
    | exact absurd kept Bool.false_ne_true

theorem divLoses (u v : UnpackedFloat) (kept : (UnpackedFloat.div .binary32 u v).isFinite = true) :
    u.isFinite = true := by
  cases u with
  | infinity s => cases v <;> exact absurd kept Bool.false_ne_true
  | notANumber => exact absurd kept Bool.false_ne_true
  | _ => rfl

section
variable {x y : Scalar}

theorem finiteSum (finite : Float32.isFinite (x + y) = true) :
    Float32.isFinite x = true ∧ Float32.isFinite y = true := addLoses _ _ (finitePacked finite)

theorem finiteDifference (finite : Float32.isFinite (x - y) = true) :
    Float32.isFinite x = true ∧ Float32.isFinite y = true := subLoses _ _ (finitePacked finite)

theorem finiteProduct (finite : Float32.isFinite (x * y) = true) :
    Float32.isFinite x = true ∧ Float32.isFinite y = true := mulLoses _ _ (finitePacked finite)

theorem finiteQuotient (finite : Float32.isFinite (x / y) = true) : Float32.isFinite x = true :=
  divLoses _ _ (finitePacked finite)

theorem quotientStray (stray : Float32.isFinite y = false) :
    (∃ s, x / y = .ofModel (.pack (.zero s))) ∨ Float32.isNaN (x / y) = true := by
  have lost : Float32.isNaN (.ofModel (.pack .notANumber)) = true := by decide +kernel
  have stray : y.toModel.unpack.isFinite = false := stray
  rw [quotientSpelled]
  cases spelled : y.toModel.unpack with
  | infinity t =>
    cases x.toModel.unpack with
    | infinity s => exact .inr lost
    | notANumber => exact .inr lost
    | zero s => exact .inl ⟨_,rfl⟩
    | finite s m e positive => exact .inl ⟨_,rfl⟩
  | notANumber => cases x.toModel.unpack <;> exact .inr lost
  | zero t =>
    rw [spelled] at stray
    contradiction
  | finite t k f positive =>
    rw [spelled] at stray
    contradiction

theorem squareLost (stray : Float32.isFinite x = false) : Lost (x * x) := by
  have stray : x.toModel.unpack.isFinite = false := stray
  unfold Lost
  rw [productSpelled]
  cases spelled : x.toModel.unpack with
  | infinity s => cases s <;> exact .inl (by decide +kernel)
  | notANumber => exact .inr (by decide +kernel)
  | zero s =>
    rw [spelled] at stray
    contradiction
  | finite s m e positive =>
    rw [spelled] at stray
    contradiction

theorem sumLost (first : Lost x) (second : Lost y) : Lost (x + y) := by
  rcases first with rfl | nan
  · rcases second with rfl | nan
    · exact .inl (by decide +kernel)
    · exact .inr (nanSum (.inr nan))
  · exact .inr (nanSum (.inl nan))

theorem lostFar (lost : Lost x) : ¬x < y := by
  intro near
  obtain ⟨number,numberY⟩ := ltNumbers near
  rcases lost with rfl | nan
  · exact ltIrrefl _ (ltOfLtLe near (toInfinity numberY))
  · rw [number] at nan
    contradiction

end
end Scalar

theorem Vec3.dotFinite {v w : Vec3} (finite : Float32.isFinite (v.dot w) = true) : v.Finite ∧ w.Finite := by
  obtain ⟨sum,z⟩ := Scalar.finiteSum finite
  obtain ⟨x,y⟩ := Scalar.finiteSum sum
  have products a : Float32.isFinite (v.component a * w.component a) = true := by
    cases a with
    | x => exact x
    | y => exact y
    | z => exact z
  exact ⟨fun a => (Scalar.finiteProduct (products a)).1,fun a => (Scalar.finiteProduct (products a)).2⟩

section
variable {triangles : Array Triangle} {q : Query} {i : UInt32} {hit : Hit}

theorem Ray.alongStray {r : Ray} (stray : ¬r.Finite) (t : Triangle)
    (ahead : ¬(t.plane.offset - t.plane.normal.dot r.origin) / t.plane.normal.dot r.direction ≤ Triangle.nudge) :
    Float32.isFinite ((t.plane.offset - t.plane.normal.dot r.origin) / t.plane.normal.dot r.direction) = false := by
  refine Bool.eq_false_iff.mpr fun finite => ?_
  have origin := (Vec3.dotFinite (Scalar.finiteDifference (Scalar.finiteQuotient finite)).2).2
  have slope : Float32.isFinite (t.plane.normal.dot r.direction) = false :=
    Bool.eq_false_iff.mpr fun kept => stray ⟨origin,(Vec3.dotFinite kept).2⟩
  rcases Scalar.quotientStray slope with ⟨s,zero⟩ | nan
  · have near : ∀ s, (.ofModel (.pack (.zero s)) : Scalar) ≤ Triangle.nudge := by
      intro s
      cases s <;> decide +kernel
    exact ahead (zero ▸ near s)
  · rw [Scalar.finiteNumber finite] at nan
    contradiction

theorem Ray.pointStray {r : Ray} {along : Scalar} (stray : Float32.isFinite along = false) (limit : Scalar) :
    ¬r.origin.distanceSquared (r.pointAt along) < limit := by
  have gap a : Float32.isFinite ((r.origin - r.pointAt along).component a) = false := by
    refine Bool.eq_false_iff.mpr fun finite => ?_
    have sum : Float32.isFinite (r.origin.component a + r.direction.component a * along) = true := by
      cases a <;> exact (Scalar.finiteDifference finite).2
    rw [(Scalar.finiteProduct (Scalar.finiteSum sum).2).2] at stray
    contradiction
  exact Scalar.lostFar (Scalar.sumLost (Scalar.sumLost (Scalar.squareLost (gap .x)) (Scalar.squareLost (gap .y)))
    (Scalar.squareLost (gap .z)))

theorem Query.strayFar (stray : ¬q.ray.Finite) (meets : q.Meets triangles i hit) (limit : Scalar) :
    ¬hit.distanceSquared < limit := by
  obtain ⟨t,_,_,crossing⟩ := meets.crossed
  unfold Triangle.crossing at crossing
  dsimp only at crossing
  split at crossing
  · contradiction
  split at crossing
  · contradiction
  rename_i ahead
  split at crossing
  · obtain ⟨point,_⟩ := Prod.mk.inj (Option.some.inj crossing)
    rw [meets.measured,← point]
    exact Ray.pointStray (Ray.alongStray stray t ahead) limit
  · contradiction

end
end Sightline
