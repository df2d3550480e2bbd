import Sightline.Obj

/-! One mesh out of many models. A merged mesh has the vertices of its models one after the other, and each corner of a
face still finds what it found in its own model, because the vertices before that model are added to its number, and
nothing that comes later moves a vertex. Normals are carried on in the same way up to the first model that has not one
for each vertex; from then on there are none. All this holds of the empty mesh, and one more model keeps it as long as
the vertices can be counted by a word. The models of a file always refer to their own vertices. -/
namespace Sightline.Obj

def Model.Own (m : Model) : Prop := ∀ i ∈ m.indices, i.toNat < m.positions.size

def vertexTotal (ms : List Model) : Nat := (ms.flatMap fun m => m.positions.toList).length

def cornerTotal (ms : List Model) : Nat := (ms.flatMap fun m => m.indices.toList).length

def Agree (xs : Array Vec3) (i : UInt32) (ys : Array Vec3) (k : UInt32) : Prop :=
  ∃ v, xs[i.toNat]? = some v ∧ ys[k.toNat]? = some v

structure Faithful (ms : List Model) (mesh : Mesh) : Prop where
  positions : mesh.positions.toList = ms.flatMap fun m => m.positions.toList
  corners : mesh.indices.size = cornerTotal ms
  inside : ∀ k ∈ mesh.indices, k.toNat < mesh.positions.size
  smooth : mesh.normals.isSome = true ↔ ∀ m ∈ ms, m.normals.size = m.positions.size
  normals : ∀ ns, mesh.normals = some ns →
    ns.size = mesh.positions.size ∧ ns.toList = ms.flatMap fun m => m.normals.toList
  corner : ∀ before m after, ms = before ++ m :: after → ∀ (j : Nat) i, m.indices[j]? = some i →
    ∃ k, mesh.indices[cornerTotal before + j]? = some k ∧ k.toNat = vertexTotal before + i.toNat ∧
      Agree m.positions i mesh.positions k ∧ ∀ ns, mesh.normals = some ns → Agree m.normals i ns k

section
variable {ms rest : List Model} {m : Model} {xs ys : Array Vec3} {i k : UInt32}

theorem vertexTotalAppend (ms rest : List Model) : vertexTotal (ms ++ rest) = vertexTotal ms + vertexTotal rest := by
  simp [vertexTotal]

theorem faithfulSize {mesh : Mesh} (faithful : Faithful ms mesh) : mesh.positions.size = vertexTotal ms := by
  rw [← Array.length_toList,faithful.positions,vertexTotal]

theorem agreeAppend (agree : Agree xs i ys k) (more : Array Vec3) : Agree xs i (ys ++ more) k := by
  obtain ⟨v,first,second⟩ := agree
  obtain ⟨inside,_⟩ := Array.getElem?_eq_some_iff.mp second
  exact ⟨v,first,by rw [Array.getElem?_append_left inside,second]⟩

theorem agreeShifted (inside : i.toNat < xs.size) (shifted : k.toNat = ys.size + i.toNat) : Agree xs i (ys ++ xs) k := by
  refine ⟨xs[i.toNat],Array.getElem?_eq_getElem inside,?_⟩
  rw [shifted,Array.getElem?_append_right (Nat.le_add_right _ _),Nat.add_sub_cancel_left]
  exact Array.getElem?_eq_getElem inside

end

namespace Merged

def mesh (all : Merged) : Mesh :=
  .ofParts all.positions all.indices (if all.complete then some all.normals else none)

section
variable {ms rest : List Model} {m : Model} {all : Merged} {i : UInt32}

theorem addPositions : (all.add m).mesh.positions = all.mesh.positions ++ m.positions := rfl

theorem addIndices : (all.add m).mesh.indices =
    all.mesh.indices ++ m.indices.map (all.mesh.positions.size.toUInt32 + ·) := rfl

theorem meshSmooth (all : Merged) : all.mesh.normals.isSome = all.complete := by
  unfold mesh Mesh.ofParts
  cases all.complete <;> rfl

theorem meshNormals {ns : Array Vec3} (smooth : all.mesh.normals = some ns) :
    all.complete = true ∧ ns = all.normals := by
  have complete := meshSmooth all
  rw [smooth] at complete
  have kept : all.mesh.normals = some all.normals := if_pos complete.symm
  exact ⟨complete.symm,Option.some.inj (smooth.symm.trans kept)⟩

theorem addNormals {ns : Array Vec3} (smooth : (all.add m).mesh.normals = some ns) :
    all.mesh.normals = some all.normals ∧ m.normals.size = m.positions.size ∧ ns = all.normals ++ m.normals := by
  obtain ⟨both,rfl⟩ := meshNormals smooth
  obtain ⟨complete,own⟩ := Bool.and_eq_true_iff.mp both
  exact ⟨if_pos complete,by simpa [Model.hasNormals] using own,if_pos own⟩

theorem shifted (faithful : Faithful ms all.mesh) (room : vertexTotal (ms ++ [m]) < 4294967296)
    (inside : i.toNat < m.positions.size) :
    (all.mesh.positions.size.toUInt32 + i).toNat = all.mesh.positions.size + i.toNat := by
  have size := faithfulSize faithful
  have one : vertexTotal [m] = m.positions.size := by simp [vertexTotal]
  rw [vertexTotalAppend,one] at room
  have small : all.mesh.positions.size < 4294967296 := by omega
  rw [UInt32.toNat_add,UInt32.toNat_ofNat_of_lt' small]
  exact Nat.mod_eq_of_lt (by omega)

theorem addCorner (faithful : Faithful ms all.mesh) (own : m.Own) (room : vertexTotal (ms ++ [m]) < 4294967296)
    {before after : List Model} {n : Model} (split : ms ++ [m] = before ++ n :: after) {j : Nat}
    (corner : n.indices[j]? = some i) :
    ∃ k, (all.add m).mesh.indices[cornerTotal before + j]? = some k ∧ k.toNat = vertexTotal before + i.toNat ∧
      Agree n.positions i (all.add m).mesh.positions k ∧
      ∀ ns, (all.add m).mesh.normals = some ns → Agree n.normals i ns k := by
  rw [addPositions,addIndices]
  rcases List.eq_nil_or_concat after with rfl | ⟨after,last,rfl⟩
  · obtain ⟨rfl,same⟩ := List.append_inj' split rfl
    cases List.singleton_inj.mp same
    have inside := own i (Array.mem_of_getElem? corner)
    have place := shifted faithful room inside
    refine ⟨_,?_,faithfulSize faithful ▸ place,agreeShifted inside place,fun ns smooth => ?_⟩
    · rw [← faithful.corners,Array.getElem?_append_right (Nat.le_add_right _ _),Nat.add_sub_cancel_left,
        Array.getElem?_map,corner]
      rfl
    · obtain ⟨former,sized,rfl⟩ := addNormals smooth
      refine agreeShifted (by omega) ?_
      rw [place,(faithful.normals _ former).1]
  · have split : ms ++ [m] = (before ++ n :: after) ++ [last] := by simp [split]
    obtain ⟨rfl,_⟩ := List.append_inj' split rfl
    obtain ⟨k,found,place,agree,normal⟩ := faithful.corner before n after rfl j i corner
    obtain ⟨inside,_⟩ := Array.getElem?_eq_some_iff.mp found
    refine ⟨k,by rw [Array.getElem?_append_left inside,found],place,agreeAppend agree _,fun ns smooth => ?_⟩
    obtain ⟨former,_,rfl⟩ := addNormals smooth
    exact agreeAppend (normal _ former) _

theorem addFaithful (faithful : Faithful ms all.mesh) (own : m.Own) (room : vertexTotal (ms ++ [m]) < 4294967296) :
    Faithful (ms ++ [m]) (all.add m).mesh where
  positions := by simp [addPositions,faithful.positions]
  corners := by simp [addIndices,faithful.corners,cornerTotal]
  inside := by
    intro k member
    rw [addPositions,Array.size_append]
    rw [addIndices] at member
    rcases Array.mem_append.mp member with former | added
    · exact Nat.lt_add_right _ (faithful.inside k former)
    · obtain ⟨i,there,rfl⟩ := Array.mem_map.mp added
      rw [shifted faithful room (own i there)]
      exact Nat.add_lt_add_left (own i there) _
  smooth := by
    have former := faithful.smooth
    rw [meshSmooth] at former ⊢
    simp [Merged.add,former,or_imp,forall_and,Model.hasNormals]
  normals := by
    intro ns smooth
    obtain ⟨former,sized,rfl⟩ := addNormals smooth
    obtain ⟨even,listed⟩ := faithful.normals _ former
    exact ⟨by simp [addPositions,even,sized],by simp [listed]⟩
  corner := fun _ _ _ split _ _ corner => addCorner faithful own room split corner

theorem addsFaithful (faithful : Faithful ms all.mesh) (own : ∀ m ∈ rest, m.Own)
    (room : vertexTotal (ms ++ rest) < 4294967296) : Faithful (ms ++ rest) (rest.foldl Merged.add all).mesh := by
  induction rest generalizing ms all with
  | nil =>
    rw [List.append_nil]
    exact faithful
  | cons m rest ih =>
    obtain ⟨first,others⟩ := List.forall_mem_cons.mp own
    have one : ms ++ m :: rest = (ms ++ [m]) ++ rest := List.append_cons ms m rest
    rw [one] at room ⊢
    have part : vertexTotal (ms ++ [m]) < 4294967296 := by
      rw [vertexTotalAppend] at room
      omega
    exact ih (addFaithful faithful first part) others room

theorem emptyFaithful : Faithful [] empty.mesh := by
  refine ⟨rfl,rfl,fun k member => ?_,by simp [meshSmooth,empty],fun ns smooth => ?_,fun before m after split => ?_⟩
  · exact absurd member (Array.not_mem_empty k)
  · obtain ⟨_,rfl⟩ := meshNormals smooth
    exact ⟨rfl,rfl⟩
  · exact absurd split.symm (List.append_ne_nil_of_right_ne_nil _ (List.cons_ne_nil _ _))

end
end Merged

theorem ownFaithful {ms : List Model} (own : ∀ m ∈ ms, m.Own) (room : vertexTotal ms < 4294967296) :
    Faithful ms (merge ms) := Merged.addsFaithful Merged.emptyFaithful own room

theorem foldKeeps {α β ε : Type} {P : β → Prop} {f : β → α → Except ε β}
    (step : ∀ b x c, P b → f b x = .ok c → P c) {xs : List α} {b c : β} (kept : P b) (run : xs.foldlM f b = .ok c) : P c := by
  induction xs generalizing b with
  | nil =>
    cases Except.ok.inj run
    exact kept
  | cons x rest ih =>
    rw [List.foldlM_cons] at run
    obtain ⟨next,here,later⟩ := Fault.bindOk run
    exact ih (step b x next kept here) later

namespace Export

structure Own (e : Export) : Prop where
  faces : e.model.Own
  known : ∀ (c : Corner) i, e.known[c]? = some i → i.toNat < e.model.positions.size

section
variable {p : Pool} {e e' : Export}

theorem startOwn : start.Own := ⟨fun i member => absurd member (Array.not_mem_empty i),by simp [start]⟩

theorem pushOwn {is : Array UInt32} {i : UInt32} {n : Nat} (own : ∀ i ∈ is, i.toNat < n) (last : i.toNat < n) :
    ∀ j ∈ is.push i, j.toNat < n := by
  intro j member
  rcases Array.mem_push.mp member with former | rfl
  · exact own j former
  · exact last

theorem addCornerOwn (c : Corner) (own : e.Own) (added : addCorner p e c = .ok e') : e'.Own := by
  unfold addCorner at added
  cases seen : e.known[c]? with
  | some i =>
    rw [seen] at added
    cases Except.ok.inj added
    exact ⟨pushOwn own.faces (own.known c i seen),own.known⟩
  | none =>
    rw [seen] at added
    obtain ⟨⟨point,normal⟩,_,same⟩ := Fault.mapOk added
    cases same
    have last : e.model.positions.size.toUInt32.toNat < e.model.positions.size + 1 := Nat.lt_succ_of_le (Nat.mod_le _ _)
    have size : (e.model.positions.push point).size = e.model.positions.size + 1 := Array.size_push _
    constructor
    · show ∀ i ∈ _, _ < (e.model.positions.push point).size
      rw [size]
      exact pushOwn (fun i member => Nat.lt_succ_of_lt (own.faces i member)) last
    · intro d i found
      show _ < (e.model.positions.push point).size
      rw [size]
      rw [Std.HashMap.getElem?_insert] at found
      split at found
      · cases Option.some.inj found
        exact last
      · exact Nat.lt_succ_of_lt (own.known d i found)

theorem addElementOwn (corners : List Corner) (own : e.Own) (added : addElement p e corners = .ok e') : e'.Own := by
  obtain ⟨cut,_,run⟩ := Fault.bindOk added
  exact foldKeeps (fun _ c _ => addCornerOwn c) own run

theorem ofElementsOwn {m : Model} {elements : List (List Corner)} (made : Model.ofElements p elements = .ok m) :
    m.Own := by
  obtain ⟨e,run,rfl⟩ := Fault.mapOk made
  exact (foldKeeps (fun _ corners _ => addElementOwn corners) startOwn run).faces

end
end Export

namespace Reader

def Own (r : Reader) : Prop := ∀ m ∈ r.models, m.Own

section
variable {library : String → Option (List UInt8)} {r r' : Reader}

theorem closeOwn (own : r.Own) (closed : r.close = .ok r') : r'.Own ∧ r'.models ≠ [] := by
  obtain ⟨m,made,same⟩ := Fault.bindOk closed
  cases Except.ok.inj same
  exact ⟨List.forall_mem_cons.mpr ⟨Export.ofElementsOwn made,own⟩,List.cons_ne_nil _ _⟩

theorem closeIfAnyOwn (own : r.Own) (closed : r.closeIfAny = .ok r') : r'.Own := by
  unfold closeIfAny at closed
  split at closed
  · cases Except.ok.inj closed
    exact own
  · exact (closeOwn own closed).1

theorem stepOwn (statement : Statement) (own : r.Own) (stepped : r.step library statement = .ok r') : r'.Own := by
  cases statement with
  | group => exact closeIfAnyOwn own stepped
  | material name =>
    dsimp only [step] at stepped
    split at stepped
    · cases Except.ok.inj stepped
      exact own
    · obtain ⟨next,closed,same⟩ := Fault.bindOk stepped
      cases Except.ok.inj same
      have kept : next.Own := closeIfAnyOwn own closed
      exact kept
  | _ =>
    cases Except.ok.inj stepped
    exact own

theorem lineOwn (text : Option (List Char)) (own : r.Own) (read : r.line library text = .ok r') : r'.Own := by
  cases text with
  | none => contradiction
  | some text =>
    obtain ⟨statement,_,stepped⟩ := Fault.bindOk read
    exact stepOwn statement own stepped

end
end Reader

theorem modelsOwn {library : String → Option (List UInt8)} {bytes : List UInt8} {ms : List Model}
    (read : models library bytes = .ok ms) : ms ≠ [] ∧ ∀ m ∈ ms, m.Own := by
  obtain ⟨r,lines,ended⟩ := Fault.bindOk read
  obtain ⟨last,closed,same⟩ := Fault.bindOk ended
  cases Except.ok.inj same
  have started : Reader.start.Own := fun m member => absurd member List.not_mem_nil
  obtain ⟨own,some⟩ := Reader.closeOwn (foldKeeps (fun _ text _ => Reader.lineOwn text) started lines) closed
  exact ⟨fun none => some (List.reverse_eq_nil_iff.mp none),fun m member => own m (List.mem_reverse.mp member)⟩

theorem loadModels {contents : String → Except IoFailure (List UInt8)} {path : String} {mesh : Mesh}
    (loaded : load contents path = .ok mesh) : ∃ bytes ms, contents path = .ok bytes ∧
      models (fun name => (contents (Path.beside path name)).toOption) bytes = .ok ms ∧ mesh = merge ms := by
  unfold load at loaded
  split at loaded
  · contradiction
  · contradiction
  · rename_i bytes held
    obtain ⟨ms,read,same⟩ := Fault.mapOk loaded
    exact ⟨bytes,ms,held,read,same.symm⟩

theorem mergedFaithful :
    (∀ ms : List Model, (∀ m ∈ ms, m.Own) → vertexTotal ms < 4294967296 → Faithful ms (merge ms)) ∧
    ∀ (contents : String → Except IoFailure (List UInt8)) (path : String) (mesh : Mesh),
      load contents path = .ok mesh → ∃ bytes ms, contents path = .ok bytes ∧ ms ≠ [] ∧
        models (fun name => (contents (Path.beside path name)).toOption) bytes = .ok ms ∧ mesh = merge ms ∧
        (vertexTotal ms < 4294967296 → Faithful ms mesh) := by
  refine ⟨fun ms own room => ownFaithful own room,fun contents path mesh loaded => ?_⟩
  obtain ⟨bytes,ms,held,read,rfl⟩ := loadModels loaded
  obtain ⟨some,own⟩ := modelsOwn read
  exact ⟨bytes,ms,held,some,read,rfl,fun room => ownFaithful own room⟩

def apart : List Model :=
  [⟨#[.zero],#[.unitX],#[0,0,0]⟩,⟨#[],#[],#[]⟩,⟨#[.unitX,.unitY],#[.unitY,.unitZ],#[1,0,1]⟩]

/- A position, a face that is this point, and the same face again in a second object. -/
def twoPoints : List UInt8 := [118,32,48,32,48,32,48,10,102,32,49,10,111,10,102,32,49]

def point : Model := ⟨#[.zero],#[],#[0,0,0]⟩

theorem pointElements : Model.ofElements ⟨#[.zero],0,0,#[]⟩ [[⟨some 0,none,none⟩]] = .ok point := by
  simp [Model.ofElements,Export.addElement,triangulate,List.foldlM_cons,Export.addCorner,Export.vertexOf,Export.look,
    Export.start,Except.map,bind,Except.bind,pure,Except.pure,point]

theorem pointModels (library : String → Option (List UInt8)) : models library twoPoints = .ok [point,point] := by
  have lines : Text.lines twoPoints = ["v 0 0 0","f 1","o","f 1"].map (some ·.toList) := by decide +kernel
  have position : Statement.ofLine "v 0 0 0".toList = .ok (.position .zero 0) := rfl
  have element : Statement.ofLine "f 1".toList = .ok (.element [⟨some 1,none,none⟩]) := rfl
  have group : Statement.ofLine "o".toList = .ok .group := rfl
  have closed (ms : List Model) : Reader.close ⟨⟨#[.zero],0,0,#[]⟩,[[⟨some 0,none,none⟩]],ms,[],none⟩ =
      .ok ⟨⟨#[.zero],0,0,#[]⟩,[],point :: ms,[],none⟩ := by
    rw [Reader.close,List.reverse_singleton,pointElements]
    rfl
  rw [models,lines]
  simp only [List.map_cons,List.map_nil,List.foldlM_cons,List.foldlM_nil,Reader.line,position,element,group]
  -- the first point is closed by the second object, the second one by the end
  show (Reader.close ⟨⟨#[.zero],0,0,#[]⟩,[[⟨some 0,none,none⟩]],[],[],none⟩ >>= _) >>= _ = _
  rw [closed]
  show Reader.close ⟨⟨#[.zero],0,0,#[]⟩,[[⟨some 0,none,none⟩]],[point],[],none⟩ >>= _ = _
  rw [closed]
  rfl

theorem apartFaithful : (Faithful apart (merge apart) ∧ (merge apart).indices = #[0,0,0,2,1,2] ∧
    (merge apart).normals = some #[.unitX,.unitY,.unitZ]) ∧
    ∃ mesh, load (fun _ => .ok twoPoints) "two.obj" = .ok mesh ∧ Faithful [point,point] mesh ∧
      mesh.indices = #[0,0,0,1,1,1] := by
  obtain ⟨merged,loaded⟩ := mergedFaithful
  have inside : ∀ m ∈ apart, (m.indices.toList.all fun i => decide (i.toNat < m.positions.size)) = true := by
    decide +kernel
  have own : ∀ m ∈ apart, m.Own := fun m member i there =>
    of_decide_eq_true (List.all_eq_true.mp (inside m member) i (Array.mem_toList_iff.mpr there))
  refine ⟨⟨merged apart own (by decide +kernel),by decide +kernel,by decide +kernel⟩,?_⟩
  have read : load (fun _ => .ok twoPoints) "two.obj" = .ok (merge [point,point]) := by
    show (models _ twoPoints).map merge = _
    rw [pointModels]
    rfl
  obtain ⟨bytes,ms,held,_,found,_,faithful⟩ := loaded _ _ _ read
  cases Except.ok.inj held
  rw [pointModels] at found
  cases Except.ok.inj found
  exact ⟨_,read,faithful (by decide +kernel),by decide +kernel⟩

end Sightline.Obj
