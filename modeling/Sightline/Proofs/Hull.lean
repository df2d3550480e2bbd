import Sightline.Proofs.Extremes
import Sightline.Triangle

/-! The least box around others. It contains each of them and none of its six bounds could be moved inward,
because each is also a bound of one of them; both zeros count as one bound here. The union of two least boxes
is the least box around all, and so is what comes of the empty box by uniting it with some finite boxes, at
least one. The box of a triangle is that of its three corners. -/
namespace Sightline

def Vec3.Finite (v : Vec3) : Prop := ∀ a, Float32.isFinite (v.component a) = true

namespace Box
variable {b c d : Box} {bs cs : List Box}

structure Hull (b : Box) (bs : List Box) : Prop where
  contains : ∀ c ∈ bs, b.contains c = true
  bottom : ∀ a, ∃ c ∈ bs, (b.bottom.component a == c.bottom.component a) = true
  top : ∀ a, ∃ c ∈ bs, (b.top.component a == c.top.component a) = true

structure Finite (b : Box) : Prop where
  bottom : b.bottom.Finite
  top : b.top.Finite

def ofPoint (p : Vec3) : Box := ⟨p,p⟩

def bottoms (a : Axis) (bs : List Box) : List Scalar := bs.map fun b => b.bottom.component a
def tops (a : Axis) (bs : List Box) : List Scalar := bs.map fun b => b.top.component a

theorem hullIff : b.Hull bs ↔ ∀ a, Scalar.Extreme (· ≤ ·) (b.bottom.component a) (bottoms a bs) ∧
    Scalar.Extreme (fun x y => y ≤ x) (b.top.component a) (tops a bs) := by
  simp only [bottoms,tops,Scalar.extremeMap]
  constructor
  · intro hull a
    have inside c (member : c ∈ bs) := (containsIff b c).mp (hull.contains c member) a
    exact ⟨⟨fun c member => (inside c member).1,hull.bottom a⟩,
      ⟨fun c member => (inside c member).2,hull.top a⟩⟩
  · intro extreme
    refine ⟨fun c member => (containsIff b c).mpr fun a => ?_,fun a => (extreme a).1.2,
      fun a => (extreme a).2.2⟩
    exact ⟨(extreme a).1.1 c member,(extreme a).2.1 c member⟩

theorem hullUnion (left : b.Hull bs) (right : c.Hull cs) : (b.union c).Hull (bs ++ cs) := by
  rw [hullIff] at left right ⊢
  intro a
  simp only [union,Vec3.smaller,Vec3.larger,Vec3.componentZip,bottoms,tops,List.map_append]
  exact ⟨Scalar.extremeAppend Scalar.smallerPicks (left a).1 (right a).1,
    Scalar.extremeAppend Scalar.largerPicks (left a).2 (right a).2⟩

theorem hullSelf (finite : b.Finite) : b.Hull [b] := by
  rw [hullIff]
  intro a
  exact ⟨Scalar.extremeSelf Scalar.smallerPicks (Scalar.finiteNumber (finite.bottom a)),
    Scalar.extremeSelf Scalar.largerPicks (Scalar.finiteNumber (finite.top a))⟩

theorem unionBounds (a : Axis) (b : Box) (bs : List Box) :
    (bs.foldl union b).bottom.component a =
        (bottoms a bs).foldl Scalar.smaller (b.bottom.component a) ∧
      (bs.foldl union b).top.component a = (tops a bs).foldl Scalar.larger (b.top.component a) := by
  induction bs generalizing b with
  | nil => exact ⟨rfl,rfl⟩
  | cons c rest ih =>
    have next := ih (b.union c)
    simp only [union,Vec3.smaller,Vec3.larger,Vec3.componentZip] at next
    exact next

theorem hullOfBoxes (nonempty : bs ≠ []) (finite : ∀ b ∈ bs, b.Finite) : (ofBoxes bs).Hull bs := by
  rw [hullIff]
  intro a
  obtain ⟨lowest,greatest⟩ := unionBounds a empty bs
  have above : empty.bottom.component a = Scalar.greatest := by cases a <;> rfl
  have below : empty.top.component a = Scalar.lowest := by cases a <;> rfl
  rw [ofBoxes,lowest,greatest,above,below]
  constructor
  · refine Scalar.extremeFrom Scalar.smallerPicks Scalar.greatestNumber (by simpa [bottoms] using nonempty) ?_ ?_
    · exact List.forall_mem_map.mpr fun b member => Scalar.finiteNumber ((finite b member).bottom a)
    · exact List.forall_mem_map.mpr fun b member => (Scalar.finiteBounds ((finite b member).bottom a)).2
  · refine Scalar.extremeFrom Scalar.largerPicks Scalar.lowestNumber (by simpa [tops] using nonempty) ?_ ?_
    · exact List.forall_mem_map.mpr fun b member => Scalar.finiteNumber ((finite b member).top a)
    · exact List.forall_mem_map.mpr fun b member => (Scalar.finiteBounds ((finite b member).top a)).1

theorem containsSelf (finite : b.Finite) : b.contains b = true :=
  (containsIff b b).mpr fun a => ⟨Scalar.leSelf (Scalar.finiteNumber (finite.bottom a)),
    Scalar.leSelf (Scalar.finiteNumber (finite.top a))⟩

theorem containsTrans (outer : b.contains c = true) (inner : c.contains d = true) : b.contains d = true := by
  rw [containsIff] at outer inner ⊢
  exact fun a => ⟨Scalar.leTrans (outer a).1 (inner a).1,Scalar.leTrans (inner a).2 (outer a).2⟩

theorem hullLeast (hull : b.Hull bs) (around : ∀ c ∈ bs, d.contains c = true) : d.contains b = true := by
  rw [containsIff]
  intro a
  obtain ⟨c,inC,sameC⟩ := hull.bottom a
  obtain ⟨e,inE,sameE⟩ := hull.top a
  exact ⟨Scalar.leTrans ((containsIff d c).mp (around c inC) a).1 (Scalar.sameIff.mp sameC).2,
    Scalar.leTrans (Scalar.sameIff.mp sameE).1 ((containsIff d e).mp (around e inE) a).2⟩

theorem finiteUnion (left : b.Finite) (right : c.Finite) : (b.union c).Finite := by
  constructor <;> intro a <;>
    simp only [union,Vec3.smaller,Vec3.larger,Vec3.componentZip]
  · rcases Scalar.smallerCases (b.bottom.component a) (c.bottom.component a) with same | same <;> rw [same]
    · exact left.bottom a
    · exact right.bottom a
  · rcases Scalar.largerCases (b.top.component a) (c.top.component a) with same | same <;> rw [same]
    · exact left.top a
    · exact right.top a

end Box

namespace Triangle

structure Spans (t : Triangle) (a b c : Vertex) : Prop where
  made : ∃ vertices color twoSided, ofFace vertices t.face color twoSided = .ok t ∧
    vertices[t.face.a.toNat]? = some a ∧ vertices[t.face.b.toNat]? = some b ∧
    vertices[t.face.c.toNat]? = some c
  finite : ∀ v ∈ [a,b,c], v.position.Finite

theorem madeSpans {vertices : Array Vertex} {face : Face} {color : Color} {twoSided : Bool} {t : Triangle}
    (made : ofFace vertices face color twoSided = .ok t) (finite : ∀ v ∈ vertices, v.position.Finite) :
    ∃ a b c, t.Spans a b c := by
  have built := made
  unfold ofFace at built
  obtain ⟨a,atA,built⟩ := Fault.bindOk built
  obtain ⟨b,atB,built⟩ := Fault.bindOk built
  obtain ⟨c,atC,built⟩ := Fault.bindOk built
  have thereA := Fault.lookFound atA
  have thereB := Fault.lookFound atB
  have thereC := Fault.lookFound atC
  cases Except.ok.inj built
  refine ⟨a,b,c,⟨vertices,color,twoSided,made,thereA,thereB,thereC⟩,?_⟩
  simp only [List.forall_mem_cons,List.not_mem_nil,false_imp_iff,implies_true,and_true]
  exact ⟨finite a (Array.mem_of_getElem? thereA),finite b (Array.mem_of_getElem? thereB),
    finite c (Array.mem_of_getElem? thereC)⟩

theorem spannedBounds {t : Triangle} {a b c : Vertex} (spans : t.Spans a b c) :
    t.bounds = ((Box.ofPoint a.position).union (.ofPoint b.position)).union (.ofPoint c.position) := by
  obtain ⟨vertices,color,twoSided,made,atA,atB,atC⟩ := spans.made
  obtain ⟨insideA,rfl⟩ := Array.getElem?_eq_some_iff.mp atA
  obtain ⟨insideB,rfl⟩ := Array.getElem?_eq_some_iff.mp atB
  obtain ⟨insideC,rfl⟩ := Array.getElem?_eq_some_iff.mp atC
  rw [ofFaceOk insideA insideB insideC] at made
  exact congrArg bounds (Except.ok.inj made).symm

theorem spannedFinite {t : Triangle} {a b c : Vertex} (spans : t.Spans a b c) : t.bounds.Finite := by
  have corner v (member : v ∈ [a,b,c]) : (Box.ofPoint v.position).Finite :=
    ⟨spans.finite v member,spans.finite v member⟩
  rw [spannedBounds spans]
  exact Box.finiteUnion (Box.finiteUnion (corner a (by simp)) (corner b (by simp))) (corner c (by simp))

theorem spannedHull {t : Triangle} {a b c : Vertex} (spans : t.Spans a b c) :
    t.bounds.Hull [.ofPoint a.position,.ofPoint b.position,.ofPoint c.position] := by
  have corner v (member : v ∈ [a,b,c]) : (Box.ofPoint v.position).Hull [.ofPoint v.position] :=
    Box.hullSelf ⟨spans.finite v member,spans.finite v member⟩
  rw [spannedBounds spans]
  exact Box.hullUnion (Box.hullUnion (corner a (by simp)) (corner b (by simp))) (corner c (by simp))

end Triangle
end Sightline
