import Sightline.Proofs.Edits

/-! What becomes of a mesh in a scene. Every look into a list is spelled out here, with the fault it would be to look
past the end; the faces that are looked at were tested before, once where normals are added up and once more where
triangles are made, so no look fails and both times the same faces count. Adding up goes from face to face and
touches three sums at a time. Seen from one vertex it adds the normals of the faces around it, in the order of
the faces, as often as a face names the vertex. -/
namespace Sightline

namespace Mesh

def addAt (n : Vec3) (sums : Array Vec3) (i : UInt32) : Except Fault (Array Vec3) := do
  let sum ← Fault.look sums i .noVertex
  return sums.setIfInBounds i.toNat (sum + n)

def scatter (positions sums : Array Vec3) (f : Face) : Except Fault (Array Vec3) :=
  if f.InRange positions.size then do
    let a ← Fault.look positions f.a .noVertex
    let b ← Fault.look positions f.b .noVertex
    let c ← Fault.look positions f.c .noVertex
    [f.a,f.b,f.c].foldlM (addAt (faceNormal a b c)) sums
  else return sums

def scattered (m : Mesh) : Except Fault (Array Vec3) := do
  let sums ← (Face.ofIndices m.indices.toList).foldlM (scatter m.positions)
    (Array.replicate m.positions.size .zero)
  return sums.map settle

def suitable (m : Mesh) : Except Fault (Array Vec3) :=
  match m.normals with
  | some ns => if ns.size = m.positions.size then .ok ns else m.scattered
  | none => m.scattered

def normalOf (m : Mesh) (f : Face) : Vec3 :=
  faceNormal (m.positions.getD f.a.toNat .zero) (m.positions.getD f.b.toNat .zero)
    (m.positions.getD f.c.toNat .zero)

def share (m : Mesh) (v : Nat) (f : Face) : List Vec3 :=
  ([f.a,f.b,f.c].filter fun i => i.toNat = v).map fun _ => m.normalOf f

def gathered (m : Mesh) (v : Nat) : Vec3 := (m.faces.flatMap (m.share v)).foldl (· + ·) .zero

def corner (m : Mesh) (k : Nat) : UInt32 := m.indices.toList.getD k 0

def face (m : Mesh) (k : Nat) : Face := ⟨m.corner (3 * k),m.corner (3 * k + 1),m.corner (3 * k + 2)⟩

theorem ofIndicesRange (indices : List UInt32) : Face.ofIndices indices = (List.range (indices.length / 3)).map fun k =>
    ⟨indices.getD (3 * k) 0,indices.getD (3 * k + 1) 0,indices.getD (3 * k + 2) 0⟩ := by
  fun_induction Face.ofIndices indices with
  | case1 a b c rest ih =>
    have count : (a :: b :: c :: rest).length / 3 = rest.length / 3 + 1 := by
      simp only [List.length_cons]
      omega
    rw [count,List.range_succ_eq_map,List.map_cons,List.map_map,ih]
    rfl
  | case2 indices short =>
    rcases indices with _ | ⟨a,_ | ⟨b,_ | ⟨c,rest⟩⟩⟩
    · simp
    · simp
    · simp
    · exact absurd rfl (short a b c rest)

theorem facesComplete (m : Mesh) : m.faces =
    ((List.range m.triangleCount).map m.face).filter fun f => decide (f.InRange m.positions.size) := by
  rw [faces,ofIndicesRange]
  rfl

section
variable {m : Mesh} {positions sums : Array Vec3} {f : Face} {n : Vec3} {i : UInt32}

theorem addAtInside (inside : i.toNat < sums.size) : addAt n sums i = .ok (sums.modify i.toNat (· + n)) := by
  rw [addAt,Fault.lookInside _ inside]
  refine congrArg Except.ok (Array.ext (by simp) fun j here there => ?_)
  rw [Array.getElem_setIfInBounds (by simpa using here),Array.getElem_modify]
  split
  · rename_i same
    simp [same]
  · rfl

theorem addAllInside (is : List UInt32) (inside : ∀ i ∈ is, i.toNat < sums.size) :
    is.foldlM (addAt n) sums = .ok (is.foldl (fun sums i => sums.modify i.toNat (· + n)) sums) := by
  induction is generalizing sums with
  | nil => rfl
  | cons i rest ih =>
    obtain ⟨first,later⟩ := List.forall_mem_cons.mp inside
    rw [List.foldlM_cons,addAtInside first]
    exact ih (by simpa using later)

theorem scatterInside (inside : f.InRange positions.size) (sized : sums.size = positions.size) :
    scatter positions sums f = .ok (addFace positions sums f) := by
  obtain ⟨a,b,c⟩ := inside
  rw [scatter,if_pos ⟨a,b,c⟩,Fault.lookInside _ a,Fault.lookInside _ b,Fault.lookInside _ c]
  have corners : ∀ i ∈ [f.a,f.b,f.c], i.toNat < sums.size := by
    rw [sized]
    simp only [List.forall_mem_cons,List.not_mem_nil,false_imp_iff,implies_true,and_true]
    exact ⟨a,b,c⟩
  refine (addAllInside _ corners).trans ?_
  simp only [addFace,Array.getElem?_eq_getElem a,Array.getElem?_eq_getElem b,Array.getElem?_eq_getElem c]

theorem scatterFaces (fs : List Face) (sized : sums.size = positions.size) : fs.foldlM (scatter positions) sums =
    .ok ((fs.filter fun f => decide (f.InRange positions.size)).foldl (addFace positions) sums) := by
  induction fs generalizing sums with
  | nil => rfl
  | cons f rest ih =>
    rw [List.foldlM_cons]
    by_cases inside : f.InRange positions.size
    · rw [scatterInside inside sized,List.filter_cons_of_pos (by simpa using inside)]
      exact ih ((addFaceSize positions sums f).trans sized)
    · rw [scatter,if_neg inside,List.filter_cons_of_neg (by simpa using inside)]
      exact ih sized

theorem scatteredSmooth (m : Mesh) : m.scattered = .ok m.smoothNormals := by
  rw [scattered,scatterFaces _ Array.size_replicate]
  rfl

theorem ownOrNot (m : Mesh) : (∃ ns, m.normals = some ns ∧ ns.size = m.positions.size) ∨
    ∀ ns, m.normals = some ns → ns.size ≠ m.positions.size := by
  by_cases own : ∃ ns, m.normals = some ns ∧ ns.size = m.positions.size
  · exact .inl own
  · exact .inr fun ns given sized => own ⟨ns,given,sized⟩

theorem ensuredOwn {ns : Array Vec3} (given : m.normals = some ns) (sized : ns.size = m.positions.size) :
    m.ensureNormals.normals.getD #[] = ns := by
  simp [ensureNormals,given,sized]

theorem ensuredSmooth (unsuited : ∀ ns, m.normals = some ns → ns.size ≠ m.positions.size) :
    m.ensureNormals = m.computeNormals := by
  unfold ensureNormals
  cases given : m.normals with
  | none => rfl
  | some ns => exact if_neg (unsuited ns given)

theorem ensuredPositions (m : Mesh) : m.ensureNormals.positions = m.positions := by
  rcases m.ownOrNot with ⟨ns,given,sized⟩ | unsuited
  · simp [ensureNormals,given,sized]
  · rw [ensuredSmooth unsuited]
    rfl

theorem ensuredSize (m : Mesh) : (m.ensureNormals.normals.getD #[]).size = m.positions.size := by
  rcases m.ownOrNot with ⟨ns,given,sized⟩ | unsuited
  · rw [ensuredOwn given sized,sized]
  · rw [ensuredSmooth unsuited]
    exact m.smoothNormalsSize

theorem suitableEnsured (m : Mesh) : m.suitable = .ok (m.ensureNormals.normals.getD #[]) := by
  rcases m.ownOrNot with ⟨ns,given,sized⟩ | unsuited
  · rw [ensuredOwn given sized,suitable,given]
    exact if_pos sized
  · rw [ensuredSmooth unsuited,suitable]
    cases given : m.normals with
    | none => exact scatteredSmooth m
    | some ns => exact (if_neg (unsuited ns given)).trans (scatteredSmooth m)

theorem addAllAt (is : List UInt32) (v : Nat) :
    (is.foldl (fun sums i => sums.modify i.toNat (· + n)) sums)[v]? =
      sums[v]?.map (((is.filter fun i => i.toNat = v).map fun _ => n).foldl (· + ·)) := by
  induction is generalizing sums with
  | nil => simp
  | cons i rest ih =>
    rw [List.foldl_cons,ih,Array.getElem?_modify]
    by_cases named : i.toNat = v
    · rw [if_pos named,List.filter_cons_of_pos (by simpa using named),Option.map_map]
      rfl
    · rw [if_neg named,List.filter_cons_of_neg (by simpa using named)]

theorem addFaceAt (inside : f.InRange m.positions.size) (v : Nat) :
    (addFace m.positions sums f)[v]? = sums[v]?.map ((m.share v f).foldl (· + ·)) := by
  obtain ⟨a,b,c⟩ := inside
  have normal : m.normalOf f = faceNormal m.positions[f.a.toNat] m.positions[f.b.toNat] m.positions[f.c.toNat] := by
    simp [normalOf,a,b,c]
  simp only [addFace,Array.getElem?_eq_getElem a,Array.getElem?_eq_getElem b,Array.getElem?_eq_getElem c]
  rw [addAllAt,share,normal]

theorem addFacesAt (fs : List Face) (inside : ∀ f ∈ fs, f.InRange m.positions.size) (v : Nat) :
    (fs.foldl (addFace m.positions) sums)[v]? = sums[v]?.map ((fs.flatMap (m.share v)).foldl (· + ·)) := by
  induction fs generalizing sums with
  | nil => simp
  | cons f rest ih =>
    obtain ⟨first,later⟩ := List.forall_mem_cons.mp inside
    rw [List.foldl_cons,ih later,addFaceAt first,Option.map_map,List.flatMap_cons]
    congr 1
    funext sum
    exact (List.foldl_append ..).symm

theorem smoothGathered (m : Mesh) :
    m.smoothNormals.toList = (List.range m.positions.size).map fun v => settle (m.gathered v) := by
  have inside : ∀ f ∈ m.faces, f.InRange m.positions.size := fun f member =>
    of_decide_eq_true (List.mem_filter.mp member).2
  refine List.ext_getElem? fun v => ?_
  rw [Array.getElem?_toList,smoothNormals,Array.getElem?_map,addFacesAt _ inside,Array.getElem?_replicate,
    List.getElem?_map]
  by_cases there : v < m.positions.size
  · rw [if_pos there,List.getElem?_range there]
    rfl
  · rw [if_neg there,List.getElem?_eq_none (by simpa using there)]
    rfl

end
end Mesh

namespace Scene

def keepFace (vertices : Array Vertex) (color : Color) (made : Array Triangle) (f : Face) :
    Except Fault (Array Triangle) :=
  if f.InRange vertices.size then do
    let t ← Triangle.ofFace vertices f color false
    return made.push t
  else return made

def assembled (m : Mesh) (color : Color) : Except Fault Scene := do
  let normals ← m.suitable
  let vertices := m.positions.zipWith Vertex.mk normals
  let made ← (Face.ofIndices m.indices.toList).foldlM (keepFace vertices color) #[]
  return ⟨vertices,made,#[],none⟩

section
variable {m : Mesh} {color : Color} {vertices : Array Vertex}

theorem madeOption {f : Face} (outside : ¬f.InRange vertices.size) :
    (Triangle.ofFace vertices f color false).toOption = none := by
  cases made : Triangle.ofFace vertices f color false with
  | error fault => rfl
  | ok t => exact (outside (Triangle.ofFaceInside made)).elim

theorem keepFaces (fs : List Face) (made : Array Triangle) : fs.foldlM (keepFace vertices color) made =
    .ok (made ++ (fs.filterMap fun f => (Triangle.ofFace vertices f color false).toOption).toArray) := by
  induction fs generalizing made with
  | nil => simp; rfl
  | cons f rest ih =>
    rw [List.foldlM_cons,keepFace]
    by_cases inside : f.InRange vertices.size
    · obtain ⟨t,there⟩ := Triangle.ofFaceRange.mpr inside
      rw [if_pos inside,there]
      refine (ih (made.push t)).trans ?_
      simp [there,Except.toOption]
    · rw [if_neg inside]
      refine (ih made).trans ?_
      rw [List.filterMap_cons,madeOption inside]

theorem poolEnsured (m : Mesh) (color : Color) :
    (ofMesh m color).vertices = m.positions.zipWith Vertex.mk (m.ensureNormals.normals.getD #[]) := by
  rw [ofMesh,vertexPool,m.ensuredPositions]

theorem assembledMesh (m : Mesh) (color : Color) : assembled m color = .ok (ofMesh m color) := by
  rw [assembled,Mesh.suitableEnsured]
  dsimp only [bind,Except.bind]
  rw [keepFaces,Array.empty_append]
  refine congrArg Except.ok ?_
  rw [← poolEnsured m color]
  rfl

theorem poolPositions (m : Mesh) : (ofMesh m color).vertices.toList.map Vertex.position = m.positions.toList := by
  rw [poolEnsured,Array.toList_zipWith,List.map_zipWith]
  refine List.ext_getElem ?_ fun i _ _ => by simp
  simp [m.ensuredSize]

theorem poolNormals (m : Mesh) :
    (ofMesh m color).vertices.toList.map Vertex.normal = (m.ensureNormals.normals.getD #[]).toList := by
  rw [poolEnsured,Array.toList_zipWith,List.map_zipWith]
  refine List.ext_getElem ?_ fun i _ _ => by simp
  simp [m.ensuredSize]

theorem poolSize (m : Mesh) : (ofMesh m color).vertices.size = m.positions.size := by
  rw [poolEnsured,Array.size_zipWith,m.ensuredSize,Nat.min_self]

theorem madeInside (fs : List Face) :
    (fs.filterMap fun f => (Triangle.ofFace vertices f color false).toOption).map Except.ok =
      (fs.filter fun f => decide (f.InRange vertices.size)).map fun f => Triangle.ofFace vertices f color false := by
  induction fs with
  | nil => rfl
  | cons f rest ih =>
    by_cases inside : f.InRange vertices.size
    · obtain ⟨t,there⟩ := Triangle.ofFaceRange.mpr inside
      rw [List.filter_cons_of_pos (by simpa using inside),List.map_cons,← ih,List.filterMap_cons,there]
      rfl
    · rw [List.filter_cons_of_neg (by simpa using inside),← ih,List.filterMap_cons,madeOption inside]

theorem keptFaces (m : Mesh) : (ofMesh m color).triangles.toList.map Except.ok =
    m.faces.map fun f => Triangle.ofFace (ofMesh m color).vertices f color false := by
  have made := @madeInside color (ofMesh m color).vertices (Face.ofIndices m.indices.toList)
  rw [poolSize] at made
  exact made

theorem meshFaithful (m : Mesh) (color : Color) : assembled m color = .ok (ofMesh m color) ∧
    (ofMesh m color).vertices.toList.map Vertex.position = m.positions.toList ∧
    (∀ ns, m.normals = some ns → ns.size = m.positions.size →
      (ofMesh m color).vertices.toList.map Vertex.normal = ns.toList) ∧
    ((∀ ns, m.normals = some ns → ns.size ≠ m.positions.size) →
      (ofMesh m color).vertices.toList.map Vertex.normal = (List.range m.positions.size).map fun v =>
        if 0 < (m.gathered v).length then m.gathered v / (m.gathered v).length else .unitY) ∧
    (m.faces = ((List.range m.triangleCount).map m.face).filter fun f => decide (f.InRange m.positions.size)) ∧
    (ofMesh m color).triangles.toList.map Except.ok =
      (m.faces.map fun f => Triangle.ofFace (ofMesh m color).vertices f color false) ∧
    (ofMesh m color).lights = #[] ∧ (ofMesh m color).source = none := by
  refine ⟨assembledMesh m color,poolPositions m,fun ns given sized => ?_,fun unsuited => ?_,m.facesComplete,
    keptFaces m,rfl,rfl⟩
  · rw [poolNormals,Mesh.ensuredOwn given sized]
  · rw [poolNormals,Mesh.ensuredSmooth unsuited]
    exact m.smoothGathered

end

/- Two whole faces of different size and direction, one that names a vertex twice, one that dangles, and an index
too many. -/
def ragged (normals : Option (Array Vec3)) : Mesh :=
  .ofParts #[⟨0,0,0⟩,⟨2,0,0⟩,⟨0,3,0⟩,⟨0,0,5⟩] #[0,1,2,0,3,1,0,1,1,0,1,7,2] normals

theorem raggedFaithful :
    (ofMesh (ragged (some #[.unitZ,.unitZ,.unitX,.unitX])) .one).vertices.toList.map Vertex.normal =
      [.unitZ,.unitZ,.unitX,.unitX] ∧
    (ofMesh (ragged (some #[.unitZ])) .one).vertices.toList.map Vertex.normal =
      [⟨0,.ofWord 0x3f3504f3,.ofWord 0x3f3504f3⟩,⟨0,.ofWord 0x3f3504f3,.ofWord 0x3f3504f3⟩,.unitZ,.unitY] ∧
    (ofMesh (ragged none) .one).triangles.toList.map Except.ok = [⟨0,1,2⟩,⟨0,3,1⟩,⟨0,1,1⟩].map fun f =>
      Triangle.ofFace (ofMesh (ragged none) .one).vertices f .one false := by
  obtain ⟨_,_,own,_⟩ := meshFaithful (ragged (some #[.unitZ,.unitZ,.unitX,.unitX])) .one
  obtain ⟨_,_,_,smooth,_⟩ := meshFaithful (ragged (some #[.unitZ])) .one
  obtain ⟨_,_,_,_,_,kept,_⟩ := meshFaithful (ragged none) .one
  refine ⟨own _ rfl rfl,?_,kept.trans ?_⟩
  · rw [smooth fun ns given => by cases given; decide]
    decide +kernel
  · rw [show (ragged none).faces = [⟨0,1,2⟩,⟨0,3,1⟩,⟨0,1,1⟩] by decide]

end Scene
end Sightline
