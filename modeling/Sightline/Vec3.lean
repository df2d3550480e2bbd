import Sightline.Scalar
/-! Points, directions and linear colors in three dimensions. Every operation is componentwise or is
written out as the sums and products below, so each result has one exact value. A division by a
number divides each component; it never multiplies by a reciprocal, except where a vector is scaled
to unit length. -/
namespace Sightline

structure Vec3 where
  x : Scalar
  y : Scalar
  z : Scalar
  deriving DecidableEq, Repr

inductive Axis where
  | x
  | y
  | z
  deriving DecidableEq, Repr

namespace Axis

def all : List Axis := [.x,.y,.z]

def ofNumber : Nat → Axis
  | 0 => .x
  | 1 => .y
  | _ => .z

theorem memAll (a : Axis) : a ∈ all := by cases a <;> decide

end Axis

namespace Vec3

def splat (s : Scalar) : Vec3 := ⟨s,s,s⟩
def zero : Vec3 := splat 0
def one : Vec3 := splat 1
def unitX : Vec3 := ⟨1,0,0⟩
def unitY : Vec3 := ⟨0,1,0⟩
def unitZ : Vec3 := ⟨0,0,1⟩

@[inline] def component (v : Vec3) : Axis → Scalar
  | .x => v.x
  | .y => v.y
  | .z => v.z

@[inline] def map (f : Scalar → Scalar) (v : Vec3) : Vec3 := ⟨f v.x,f v.y,f v.z⟩
@[inline] def zip (f : Scalar → Scalar → Scalar) (v w : Vec3) : Vec3 := ⟨f v.x w.x,f v.y w.y,f v.z w.z⟩

instance : Add Vec3 := ⟨zip (· + ·)⟩
instance : Sub Vec3 := ⟨zip (· - ·)⟩
instance : HMul Vec3 Scalar Vec3 := ⟨fun v s => v.map (· * s)⟩
instance : HDiv Vec3 Scalar Vec3 := ⟨fun v s => v.map (· / s)⟩

theorem componentZip (f : Scalar → Scalar → Scalar) (v w : Vec3) (a : Axis) :
    (zip f v w).component a = f (v.component a) (w.component a) := by cases a <;> rfl

theorem componentMap (f : Scalar → Scalar) (v : Vec3) (a : Axis) :
    (map f v).component a = f (v.component a) := by cases a <;> rfl

def dot (v w : Vec3) : Scalar := v.x * w.x + v.y * w.y + v.z * w.z

def cross (v w : Vec3) : Vec3 :=
  ⟨v.y * w.z - w.y * v.z,v.z * w.x - w.z * v.x,v.x * w.y - w.x * v.y⟩

def length (v : Vec3) : Scalar := Float32.sqrt (v.dot v)

def distanceSquared (v w : Vec3) : Scalar := (v - w).dot (v - w)
def distance (v w : Vec3) : Scalar := (v - w).length

def unit (v : Vec3) : Vec3 := v * (1 / v.length)

def unitOrZero (v : Vec3) : Vec3 :=
  let scale := 1 / v.length
  if Float32.isFinite scale && decide (0 < scale) then v * scale else zero

def smaller : Vec3 → Vec3 → Vec3 := zip Scalar.smaller
def larger : Vec3 → Vec3 → Vec3 := zip Scalar.larger

def abs (v : Vec3) : Vec3 := v.map Float32.abs

def largestComponent (v : Vec3) : Scalar := Scalar.larger v.x (Scalar.larger v.y v.z)

def isZero (v : Vec3) : Bool := v.x == 0 && v.y == 0 && v.z == 0

end Vec3
end Sightline
