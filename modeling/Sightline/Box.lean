import Sightline.Vec3
/-! Axis-aligned boxes and rays. A box is its two extreme corners; nothing is padded, so a flat
object has a flat box. The empty box is turned inside out, which makes it disappear in the first
union. Whether a ray crosses a box is decided axis by axis on the interval of its parameters. -/
namespace Sightline

structure Ray where
  origin : Vec3
  direction : Vec3
  deriving DecidableEq, Repr

def Ray.pointAt (r : Ray) (t : Scalar) : Vec3 := r.origin + r.direction * t

structure Box where
  bottom : Vec3
  top : Vec3
  deriving DecidableEq, Repr

namespace Box

def empty : Box := ⟨.splat Scalar.greatest,.splat Scalar.lowest⟩

def ofCorners (a b : Vec3) : Box := ⟨a.smaller b,a.larger b⟩

def union (a b : Box) : Box := ⟨a.bottom.smaller b.bottom,a.top.larger b.top⟩

def growPoint (b : Box) (p : Vec3) : Box := ⟨b.bottom.smaller p,b.top.larger p⟩

def ofPoints (ps : List Vec3) : Box := ps.foldl growPoint empty

def ofBoxes (bs : List Box) : Box := bs.foldl union empty

def extent (b : Box) : Vec3 := b.top - b.bottom

def halfArea (b : Box) : Scalar :=
  let s := b.extent
  s.x * s.y + s.y * s.z + s.z * s.x

def centroid (b : Box) : Vec3 := (b.bottom + b.top) * (0.5 : Scalar)

def contains (outer inner : Box) : Bool :=
  Axis.all.all fun a => decide (outer.bottom.component a ≤ inner.bottom.component a) &&
    decide (inner.top.component a ≤ outer.top.component a)

theorem containsIff (outer inner : Box) : outer.contains inner = true ↔
    ∀ a, outer.bottom.component a ≤ inner.bottom.component a ∧
      inner.top.component a ≤ outer.top.component a := by
  simp only [contains, List.all_eq_true, Bool.and_eq_true, decide_eq_true_eq]
  exact ⟨fun h a => h a a.memAll,fun h a _ => h a⟩

end Box

structure Span where
  near : Scalar
  far : Scalar
  deriving DecidableEq, Repr

namespace Span

def whole : Span := ⟨Scalar.lowest,Scalar.greatest⟩

/-- Cuts the span down to one slab. A ray parallel to the slab keeps its span exactly when it starts
between the two planes. A comparison with NaN fails, and a bound that compares with nothing leaves
the span as it was. -/
def clip (s : Span) (origin direction bottom top : Scalar) : Option Span :=
  if direction == 0 then
    if origin < bottom ∨ origin > top then none else some s
  else
    let a := (bottom - origin) / direction
    let b := (top - origin) / direction
    let enter := if a > b then b else a
    let leave := if a > b then a else b
    let near := if enter > s.near then enter else s.near
    let far := if leave < s.far then leave else s.far
    if near > far ∨ far < 0 then none else some ⟨near,far⟩

def clipAxis (box : Box) (r : Ray) (s : Span) (a : Axis) : Option Span :=
  s.clip (r.origin.component a) (r.direction.component a) (box.bottom.component a)
    (box.top.component a)

end Span

def Box.meets (b : Box) (r : Ray) : Bool :=
  (Axis.all.foldlM (Span.clipAxis b r) Span.whole).isSome

end Sightline
