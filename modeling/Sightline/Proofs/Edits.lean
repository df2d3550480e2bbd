import Sightline.Scene

/-! Scenes while they are put together. What a triangle carries was computed from the vertices at the time it was made,
and it stays what would be computed now: vertices and triangles are only ever appended, so a place that was in the
pool holds the same vertex later, and the index that a change answers with still finds what was added. A change is
written in the order of its effects; the only fault, a face that names a vertex which is not there, comes before
anything is written. -/
namespace Sightline

namespace Fault

theorem lookOk {xs : Array α} {index : UInt32} {fault : UInt32 → Fault} {x : α} :
    look xs index fault = .ok x ↔ xs[index.toNat]? = some x := by
  refine ⟨lookFound,fun found => ?_⟩
  rw [look,found]

end Fault

namespace Triangle

section
variable {vertices later : Array Vertex} {face : Face} {color : Color} {twoSided : Bool} {t : Triangle}

theorem ofFaceFound : ofFace vertices face color twoSided = .ok t ↔ ∃ a b c,
    vertices[face.a.toNat]? = some a ∧ vertices[face.b.toNat]? = some b ∧ vertices[face.c.toNat]? = some c ∧
      t = ofPoints a.position b.position c.position face color twoSided := by
  constructor
  · intro made
    obtain ⟨a,atA,made⟩ := Fault.bindOk made
    obtain ⟨b,atB,made⟩ := Fault.bindOk made
    obtain ⟨c,atC,made⟩ := Fault.bindOk made
    exact ⟨a,b,c,Fault.lookFound atA,Fault.lookFound atB,Fault.lookFound atC,(Except.ok.inj made).symm⟩
  · rintro ⟨a,b,c,atA,atB,atC,rfl⟩
    rw [ofFace,Fault.lookOk.mpr atA,Fault.lookOk.mpr atB,Fault.lookOk.mpr atC]
    rfl

theorem ofFaceInside (made : ofFace vertices face color twoSided = .ok t) : face.InRange vertices.size := by
  obtain ⟨a,b,c,atA,atB,atC,_⟩ := ofFaceFound.mp made
  exact ⟨(Array.getElem?_eq_some_iff.mp atA).1,(Array.getElem?_eq_some_iff.mp atB).1,
    (Array.getElem?_eq_some_iff.mp atC).1⟩

theorem ofFaceRange : (∃ t, ofFace vertices face color twoSided = .ok t) ↔ face.InRange vertices.size := by
  constructor
  · rintro ⟨t,made⟩
    exact ofFaceInside made
  · rintro ⟨a,b,c⟩
    exact ⟨_,ofFaceOk a b c color twoSided⟩

theorem ofFaceFields (made : ofFace vertices face color twoSided = .ok t) :
    t.face = face ∧ t.color = color ∧ t.twoSided = twoSided := by
  obtain ⟨a,b,c,_,_,_,rfl⟩ := ofFaceFound.mp made
  exact ⟨rfl,rfl,rfl⟩

theorem ofFaceLater (grows : vertices.toList <+: later.toList) (made : ofFace vertices face color twoSided = .ok t) :
    ofFace later face color twoSided = .ok t := by
  have kept {i : Nat} {v : Vertex} (found : vertices[i]? = some v) : later[i]? = some v := by
    rw [← Array.getElem?_toList] at found ⊢
    obtain ⟨rest,same⟩ := grows
    rw [← same,List.getElem?_append_left (List.getElem?_eq_some_iff.mp found).1]
    exact found
  obtain ⟨a,b,c,atA,atB,atC,same⟩ := ofFaceFound.mp made
  exact ofFaceFound.mpr ⟨a,b,c,kept atA,kept atB,kept atC,same⟩

end
end Triangle

namespace Scene

structure Consistent (s : Scene) : Prop where
  faces : ∀ t ∈ s.triangles, t.face.InRange s.vertices.size
  made : ∀ t ∈ s.triangles, Triangle.ofFace s.vertices t.face t.color t.twoSided = .ok t

structure Extends (later s : Scene) : Prop where
  vertices : s.vertices.toList <+: later.vertices.toList
  triangles : s.triangles.toList <+: later.triangles.toList

inductive Edit where
  | vertex (v : Vertex)
  | triangle (face : Face) (color : Color) (twoSided : Bool)
  | light (l : Light)
  | source (path : String)
  deriving DecidableEq, Repr

/-- A change to a scene in place. What was written before a fault stays written. -/
abbrev Change (α : Type) := ExceptT Fault (StateM Scene) α

theorem changeThen (first : Change α) (next : α → Change β) (s : Scene) :
    (first >>= next).run s = match first.run s with
      | (.ok x,t) => (next x).run t
      | (.error fault,t) => (.error fault,t) := by
  unfold ExceptT.run
  simp only [bind,ExceptT.bind,ExceptT.mk,StateT.bind,ExceptT.bindCont]
  obtain ⟨outcome,t⟩ := first s
  cases outcome <;> rfl

theorem changeRead (s : Scene) : (get : Change Scene).run s = (.ok s,s) := rfl

theorem changeLift (x : Except Fault α) (s : Scene) : (liftM x : Change α).run s = (x,s) := by
  cases x <;> rfl

def placeTriangle (face : Face) (color : Color) (twoSided : Bool) : Change UInt32 := do
  let s ← get
  let t ← (Triangle.ofFace s.vertices face color twoSided : Except Fault Triangle)
  modify fun s => { s with triangles := s.triangles.push t }
  return s.triangles.size.toUInt32

def Edit.perform : Edit → Change (Option UInt32)
  | .vertex v => do
    let (s,i) := (← get).addVertex v
    set s
    return some i
  | .triangle face color twoSided => some <$> placeTriangle face color twoSided
  | .light l => do
    modify (withLight · l)
    return none
  | .source path => do
    modify (withSource · path)
    return none

def Edit.answer (e : Edit) (s : Scene) : Except Fault (Option UInt32) := (e.perform.run s).1
def Edit.result (e : Edit) (s : Scene) : Scene := (e.perform.run s).2

def edited (s : Scene) (edits : List Edit) : Scene := edits.foldl (fun s e => e.result s) s

section
variable {s later : Scene} {face : Face} {color : Color} {twoSided : Bool} {e : Edit}

theorem placed (s : Scene) (face : Face) (color : Color) (twoSided : Bool) :
    (placeTriangle face color twoSided).run s = match s.addTriangle face color twoSided with
      | .ok (next,i) => (.ok i,next)
      | .error fault => (.error fault,s) := by
  unfold addTriangle placeTriangle
  rw [changeThen,changeRead]
  dsimp only
  rw [changeThen,changeLift]
  cases Triangle.ofFace s.vertices face color twoSided <;> rfl

inductive Performed (s : Scene) : Edit → Except Fault (Option UInt32) → Scene → Prop where
  | vertex (v : Vertex) : Performed s (.vertex v) (.ok (some s.vertices.size.toUInt32))
      { s with vertices := s.vertices.push v }
  | triangle {face color twoSided t} (made : Triangle.ofFace s.vertices face color twoSided = .ok t) :
      Performed s (.triangle face color twoSided) (.ok (some s.triangles.size.toUInt32))
        { s with triangles := s.triangles.push t }
  | refused {face color twoSided fault} (outside : ¬face.InRange s.vertices.size) :
      Performed s (.triangle face color twoSided) (.error fault) s
  | light (l : Light) : Performed s (.light l) (.ok none) (s.withLight l)
  | source (path : String) : Performed s (.source path) (.ok none) (s.withSource path)

theorem performs (s : Scene) (e : Edit) : Performed s e (e.answer s) (e.result s) := by
  cases e with
  | vertex v => exact .vertex v
  | light l => exact .light l
  | source path => exact .source path
  | triangle face color twoSided =>
    have run : (Edit.triangle face color twoSided).perform.run s =
        match s.addTriangle face color twoSided with
        | .ok (next,i) => (.ok (some i),next)
        | .error fault => (.error fault,s) := by
      show (some <$> placeTriangle face color twoSided).run s = _
      rw [map_eq_pure_bind,changeThen,placed]
      cases s.addTriangle face color twoSided <;> rfl
    unfold Edit.answer Edit.result
    rw [run,addTriangle]
    cases made : Triangle.ofFace s.vertices face color twoSided with
    | ok t => exact .triangle made
    | error fault =>
      refine .refused fun inside => ?_
      obtain ⟨t,there⟩ := Triangle.ofFaceRange.mpr inside
      rw [made] at there
      contradiction

theorem Extends.refl (s : Scene) : s.Extends s := ⟨List.prefix_refl _,List.prefix_refl _⟩

theorem Extends.trans {final : Scene} (first : later.Extends s) (second : final.Extends later) : final.Extends s :=
  ⟨first.vertices.trans second.vertices,first.triangles.trans second.triangles⟩

theorem performedExtends {answer : Except Fault (Option UInt32)} (done : Performed s e answer later) :
    later.Extends s := by
  cases done with
  | vertex v => exact ⟨by simp,List.prefix_refl _⟩
  | triangle made => exact ⟨List.prefix_refl _,by simp⟩
  | refused outside => exact .refl s
  | light l => exact ⟨List.prefix_refl _,List.prefix_refl _⟩
  | source path => exact ⟨List.prefix_refl _,List.prefix_refl _⟩

theorem consistentOf (made : ∀ t ∈ s.triangles, Triangle.ofFace s.vertices t.face t.color t.twoSided = .ok t) :
    s.Consistent :=
  ⟨fun t member => Triangle.ofFaceInside (made t member),made⟩

theorem performedConsistent {answer : Except Fault (Option UInt32)} (consistent : s.Consistent)
    (done : Performed s e answer later) : later.Consistent := by
  cases done with
  | vertex v =>
    exact consistentOf fun t member => Triangle.ofFaceLater (by simp) (consistent.made t member)
  | triangle made =>
    refine consistentOf fun t member => ?_
    rcases Array.mem_push.mp member with old | rfl
    · exact consistent.made t old
    · obtain ⟨face,color,twoSided⟩ := Triangle.ofFaceFields made
      rw [face,color,twoSided]
      exact made
  | refused outside => exact consistent
  | light l => exact ⟨consistent.faces,consistent.made⟩
  | source path => exact ⟨consistent.faces,consistent.made⟩

theorem editedExtends (s : Scene) (edits : List Edit) : (edited s edits).Extends s := by
  induction edits generalizing s with
  | nil => exact .refl s
  | cons e rest ih => exact (performedExtends (performs s e)).trans (ih _)

theorem editedConsistent (consistent : s.Consistent) (edits : List Edit) : (edited s edits).Consistent := by
  induction edits generalizing s with
  | nil => exact consistent
  | cons e rest ih => exact ih (performedConsistent consistent (performs s e))

inductive Found (final : Scene) : Edit → Option UInt32 → Prop where
  | vertex {v i} (there : final.vertices[i.toNat]? = some v) : Found final (.vertex v) (some i)
  | triangle {face color twoSided t i} (made : Triangle.ofFace final.vertices face color twoSided = .ok t)
      (there : final.triangles[i.toNat]? = some t) : Found final (.triangle face color twoSided) (some i)
  | light (l : Light) : Found final (.light l) none
  | source (path : String) : Found final (.source path) none

theorem pushedFound {xs ys : Array α} {x : α} (few : xs.size < 4294967296)
    (grows : (xs.push x).toList <+: ys.toList) : ys[xs.size.toUInt32.toNat]? = some x := by
  obtain ⟨rest,same⟩ := grows
  have word : xs.size.toUInt32.toNat = xs.size := UInt32.toNat_ofNat_of_lt' few
  rw [word,← Array.getElem?_toList,← same]
  simp

theorem performedFound {answer : Option UInt32} {final : Scene} (done : Performed s e (.ok answer) later)
    (extends_ : final.Extends later) (vertices : s.vertices.size < 4294967296)
    (triangles : s.triangles.size < 4294967296) : Found final e answer := by
  cases done with
  | vertex v => exact .vertex (pushedFound vertices extends_.vertices)
  | triangle made =>
    exact .triangle (Triangle.ofFaceLater extends_.vertices made) (pushedFound triangles extends_.triangles)
  | light l => exact .light l
  | source path => exact .source path

theorem performedRefused {fault : Fault} (done : Performed s e (.error fault) later) : later = s ∧
    ∃ face color twoSided, e = .triangle face color twoSided ∧ ¬face.InRange s.vertices.size := by
  cases done with
  | refused outside => exact ⟨rfl,_,_,_,rfl,outside⟩

theorem performedOutside {answer : Except Fault (Option UInt32)}
    (done : Performed s (.triangle face color twoSided) answer later) (outside : ¬face.InRange s.vertices.size) :
    ∃ fault, answer = .error fault := by
  cases done with
  | triangle made => exact (outside (Triangle.ofFaceInside made)).elim
  | refused _ => exact ⟨_,rfl⟩

theorem performedInside {answer : Except Fault (Option UInt32)}
    (done : Performed s (.triangle face color twoSided) answer later) (inside : face.InRange s.vertices.size) :
    answer = .ok (some s.triangles.size.toUInt32) := by
  cases done with
  | triangle made => rfl
  | refused outside => exact (outside inside).elim

inductive Origin where
  | blank
  | mesh (m : Mesh) (color : Color)
  deriving DecidableEq, Repr

def Origin.scene : Origin → Scene
  | blank => empty
  | mesh m color => ofMesh m color

theorem originConsistent (origin : Origin) : origin.scene.Consistent := by
  cases origin with
  | blank => exact consistentOf fun t member => by simp [Origin.scene,empty] at member
  | mesh m color =>
    refine consistentOf fun t member => ?_
    simp only [Origin.scene,ofMesh,List.mem_toArray,List.mem_filterMap] at member
    obtain ⟨f,_,made⟩ := member
    cases there : Triangle.ofFace (vertexPool m.ensureNormals) f color false with
    | error fault =>
      rw [there] at made
      contradiction
    | ok made' =>
      rw [there] at made
      cases Option.some.inj made
      obtain ⟨face,color,twoSided⟩ := Triangle.ofFaceFields there
      rw [face,color,twoSided]
      exact there

theorem editsKept (origin : Origin) : (∀ edits, (edited origin.scene edits).Consistent) ∧
    ∀ before e after,
      (∀ answer, e.answer (edited origin.scene before) = .ok answer →
        (edited origin.scene before).vertices.size < 4294967296 →
        (edited origin.scene before).triangles.size < 4294967296 →
        Found (edited origin.scene (before ++ e :: after)) e answer) ∧
      ((∃ fault, e.answer (edited origin.scene before) = .error fault) ↔ ∃ face color twoSided,
        e = .triangle face color twoSided ∧ ¬face.InRange (edited origin.scene before).vertices.size) ∧
      ∀ fault, e.answer (edited origin.scene before) = .error fault →
        e.result (edited origin.scene before) = edited origin.scene before := by
  refine ⟨editedConsistent (originConsistent origin),fun before e after => ?_⟩
  have split : edited origin.scene (before ++ e :: after) =
      edited (e.result (edited origin.scene before)) after := List.foldl_append
  have grows := editedExtends (e.result (edited origin.scene before)) after
  rw [split]
  generalize edited origin.scene before = s at grows ⊢
  have done := performs s e
  refine ⟨fun answer given vertices triangles => ?_,⟨?_,?_⟩,fun fault given => ?_⟩
  · rw [given] at done
    exact performedFound done grows vertices triangles
  · rintro ⟨fault,given⟩
    rw [given] at done
    exact (performedRefused done).2
  · rintro ⟨face,color,twoSided,rfl,outside⟩
    exact performedOutside done outside
  · rw [given] at done
    exact (performedRefused done).1

end

def unfinished : Origin := .mesh (.ofParts #[⟨0,0,0⟩,⟨1,0,0⟩] #[0,1,2] none) .one

def missingCorner : List Edit := [.triangle ⟨0,1,2⟩ .one true,.vertex ⟨⟨0,1,0⟩,.unitZ⟩]

theorem finishedFound : (edited unfinished.scene missingCorner).Consistent ∧
    (∃ fault, (Edit.triangle ⟨0,1,2⟩ .one true).answer unfinished.scene = .error fault) ∧
    Found (edited unfinished.scene (missingCorner ++ .triangle ⟨0,1,2⟩ .one true :: [.light ⟨⟨0,0,5⟩⟩]))
      (.triangle ⟨0,1,2⟩ .one true) (some 0) := by
  obtain ⟨consistent,steps⟩ := editsKept unfinished
  have first : (edited unfinished.scene missingCorner).triangles.size.toUInt32 = 0 := by decide +kernel
  have answer := performedInside (performs (edited unfinished.scene missingCorner) (.triangle ⟨0,1,2⟩ .one true))
    (by decide +kernel)
  rw [first] at answer
  refine ⟨consistent missingCorner,?_,?_⟩
  · exact (steps [] (.triangle ⟨0,1,2⟩ .one true) []).2.1.mpr ⟨_,_,_,rfl,by decide +kernel⟩
  · exact (steps missingCorner _ [.light ⟨⟨0,0,5⟩⟩]).1 _ answer (by decide +kernel) (by decide +kernel)

end Scene
end Sightline
