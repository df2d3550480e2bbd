import Sightline.Proofs.Upkeep

/-! What a cache does to a scene that was edited. A hierarchy encloses some triangles when the box of each node
contains the boxes of the triangles beneath it. A build encloses the triangles it was made of. The check of a
file counts triangles and does not look at boxes, so after an edit that keeps the number of triangles the
hierarchy of the scene before is handed out, with the boxes it had then: it encloses the edited scene only
where no triangle has left the least box around the former triangles beneath each node above it. -/
namespace Sightline

namespace Hierarchy

def Encloses (h : Hierarchy) (triangles : List Triangle) : Prop :=
  ∀ place, (inside : place < h.nodes.size) → ∃ s, h.treeFrom h.nodes.size place.toUInt32 = some s ∧
    ∀ i ∈ s.triangles, ∃ t, triangles[i.toNat]? = some t ∧
      h.nodes[place].bounds.contains t.bounds = true

/-- Beneath each node, a box around all former triangles is also around the edited ones. -/
def Keeps (h : Hierarchy) (former edited : List Triangle) : Prop :=
  ∀ place s, place < h.nodes.size → h.treeFrom h.nodes.size place.toUInt32 = some s →
    ∀ d : Box, (∀ i ∈ s.triangles, ∀ t, former[i.toNat]? = some t → d.contains t.bounds = true) →
      ∀ i ∈ s.triangles, ∃ t, edited[i.toNat]? = some t ∧ d.contains t.bounds = true

section
variable {triangles edited : List Triangle} {h : Hierarchy}

theorem heldTriangle {order : List UInt32} {ts : List Triangle}
    (found : order.map (fun i => triangles[i.toNat]?) = ts.map some) {i : UInt32} (member : i ∈ order) :
    ∃ t ∈ ts, triangles[i.toNat]? = some t := by
  have there := List.mem_map_of_mem (f := fun i : UInt32 => triangles[i.toNat]?) member
  rw [found] at there
  obtain ⟨t,inside,same⟩ := List.mem_map.mp there
  exact ⟨t,inside,same.symm⟩

theorem triangleHeld {order : List UInt32} {ts : List Triangle}
    (found : order.map (fun i => triangles[i.toNat]?) = ts.map some) {t : Triangle} (member : t ∈ ts) :
    ∃ i ∈ order, triangles[i.toNat]? = some t := by
  have there := List.mem_map_of_mem (f := some) member
  rw [← found] at there
  exact List.mem_map.mp there

theorem builtEncloses (finite : ∀ t ∈ triangles, t.bounds.Finite) (built : (build triangles).result = .ok h) :
    h.Encloses triangles := by
  intro place inside
  obtain ⟨s,ts,read,found,hull⟩ := builtHull finite built inside
  refine ⟨s,read,fun i member => ?_⟩
  obtain ⟨t,there,same⟩ := heldTriangle found member
  exact ⟨t,same,hull.contains _ (List.mem_map_of_mem there)⟩

theorem builtKeeps (finite : ∀ t ∈ triangles, t.bounds.Finite) (built : (build triangles).result = .ok h) :
    h.Encloses edited ↔ h.Keeps triangles edited := by
  constructor
  · intro encloses place s inside read d around i member
    obtain ⟨r,ts,again,found,hull⟩ := builtHull finite built inside
    cases Option.some.inj (again.symm.trans read)
    obtain ⟨r,again,below⟩ := encloses place inside
    cases Option.some.inj (again.symm.trans read)
    obtain ⟨t,same,within⟩ := below i member
    refine ⟨t,same,Box.containsTrans (Box.hullLeast hull (List.forall_mem_map.mpr fun u there => ?_)) within⟩
    obtain ⟨j,named,former⟩ := triangleHeld found there
    exact around j named u former
  · intro keeps place inside
    obtain ⟨s,ts,read,found,hull⟩ := builtHull finite built inside
    refine ⟨s,read,keeps place s inside read _ fun i member t former => ?_⟩
    obtain ⟨u,there,same⟩ := heldTriangle found member
    cases Option.some.inj (same.symm.trans former)
    exact hull.contains _ (List.mem_map_of_mem there)

end
end Hierarchy

namespace Cache
open Hierarchy (build)

def Finite (scene : Scene) : Prop := ∀ t ∈ scene.triangles.toList, ∃ a b c, t.Spans a b c

section
variable {former edited : Scene} {force : Bool} {slot : Slot} {h b : Hierarchy}

theorem finiteBounds (finite : Finite former) : ∀ t ∈ former.triangles.toList, t.bounds.Finite := by
  intro t member
  obtain ⟨a,b,c,spans⟩ := finite t member
  exact Triangle.spannedFinite spans

theorem updateWrote (sourced : former.source.isSome = true) (unusable : ∀ g, ¬Usable former force slot g)
    (writes : slot.Writes) (given : (update former force slot).result = .ok h) :
    (build former.triangles.toList).result = .ok h ∧ ∃ bytes, h.encode = .ok bytes ∧
      (update former force slot).slot = slot.holding bytes := by
  rw [updateBuilt sourced unusable] at given ⊢
  have built := (rebuildFields former slot).1.symm.trans given
  obtain ⟨_,bytes,encoded⟩ := Hierarchy.builtEncodes built
  exact ⟨built,bytes,encoded,by rw [rebuildWritten built writes encoded]⟩

theorem writtenLoads (built : (build former.triangles.toList).result = .ok h) {bytes : List UInt8}
    (encoded : h.encode = .ok bytes) {g : Hierarchy} :
    (slot.holding bytes).load = .ok g ↔ slot.readable = true ∧ g = h := by
  cases readable : slot.readable with
  | false =>
    rw [Slot.loadUnreadable readable]
    exact ⟨fun none => (nomatch none),fun both => (nomatch both.1)⟩
  | true =>
    rw [Slot.loadHolding readable,Hierarchy.decodeWritten (Hierarchy.builtEncodes built).1 encoded]
    exact ⟨fun same => ⟨rfl,(Except.ok.inj same).symm⟩,fun both => congrArg Except.ok both.2.symm⟩

theorem writtenUsable (sourced : edited.source.isSome = true)
    (built : (build former.triangles.toList).result = .ok h) {bytes : List UInt8}
    (encoded : h.encode = .ok bytes) {g : Hierarchy} : Usable edited false (slot.holding bytes) g ↔
      slot.readable = true ∧ edited.triangles.size = former.triangles.size ∧ g = h := by
  have fits := Hierarchy.builtAccepted built
  rw [Array.length_toList] at fits
  constructor
  · intro usable
    obtain ⟨readable,same⟩ := (writtenLoads built encoded).mp usable.loaded
    subst same
    refine ⟨readable,?_,rfl⟩
    obtain ⟨_,counted,_⟩ := (Hierarchy.checkStages _ _).mp usable.fits
    obtain ⟨_,held,_⟩ := (Hierarchy.checkStages _ _).mp fits
    exact counted.symm.trans held
  · rintro ⟨readable,counted,rfl⟩
    have some := builtNonempty built
    refine ⟨?_,sourced,rfl,(writtenLoads built encoded).mpr ⟨readable,rfl⟩,counted ▸ fits⟩
    rw [Array.isEmpty_eq_false_iff] at some ⊢
    rw [← Array.size_pos_iff] at some ⊢
    omega

theorem editedHierarchy (finiteF : Finite former) (finiteE : Finite edited)
    (sourced : former.source.isSome = true) (same : edited.source = former.source)
    (unusable : ∀ g, ¬Usable former force slot g) (writes : slot.Writes)
    (given : (update former force slot).result = .ok h)
    (next : (update edited false (update former force slot).slot).result = .ok b) :
    h.Encloses former.triangles.toList ∧
    (edited.triangles.size = former.triangles.size → slot.readable = true → b = h ∧
      (b.Encloses edited.triangles.toList ↔ b.Keeps former.triangles.toList edited.triangles.toList)) ∧
    (¬(edited.triangles.size = former.triangles.size ∧ slot.readable = true) →
      (build edited.triangles.toList).result = .ok b ∧ b.Encloses edited.triangles.toList) := by
  obtain ⟨built,bytes,encoded,file⟩ := updateWrote sourced unusable writes given
  have sourcedE : edited.source.isSome = true := same ▸ sourced
  rw [file] at next
  refine ⟨Hierarchy.builtEncloses (finiteBounds finiteF) built,?_,?_⟩
  · intro counted readable
    rw [updateUsed ((writtenUsable sourcedE built encoded).mpr ⟨readable,counted,rfl⟩)] at next
    cases Except.ok.inj next
    exact ⟨rfl,Hierarchy.builtKeeps (finiteBounds finiteF) built⟩
  · intro distrusted
    have unused : ∀ g, ¬Usable edited false (slot.holding bytes) g := by
      intro g usable
      obtain ⟨readable,counted,_⟩ := (writtenUsable sourcedE built encoded).mp usable
      exact distrusted ⟨counted,readable⟩
    rw [updateBuilt sourcedE unused] at next
    have rebuilt := (rebuildFields edited _).1.symm.trans next
    exact ⟨rebuilt,Hierarchy.builtEncloses (finiteBounds finiteE) rebuilt⟩

end

def plateCorners (x : Scalar) : Array Vertex :=
  #[⟨⟨x,0,0⟩,.unitZ⟩,⟨⟨x + 1,0,0⟩,.unitZ⟩,⟨⟨x,1,0⟩,.unitZ⟩]

def plate (x : Scalar) : Triangle := .ofPoints ⟨x,0,0⟩ ⟨x + 1,0,0⟩ ⟨x,1,0⟩ ⟨0,1,2⟩ .one false

def platform (x : Scalar) : Scene := ⟨plateCorners x,#[plate x],#[],some "model.obj"⟩

def vacant : Slot := ⟨.missing,true,true,true⟩

def platePatch : Hierarchy := ⟨#[.leaf (.ofBox (plate 0).bounds) 0 1],#[0]⟩

theorem plateMade (x : Scalar) : Triangle.ofFace (plateCorners x) ⟨0,1,2⟩ .one false = .ok (plate x) :=
  @Triangle.ofFaceOk (plateCorners x) ⟨0,1,2⟩ (Nat.zero_lt_succ 2) (Nat.one_lt_succ_succ 1)
    (Nat.lt_succ_self 2) .one false

theorem platesFinite : Finite (platform 0) ∧ Finite (platform 8) := by
  have numbers : ∀ x ∈ [(0 : Scalar),8], ∀ v ∈ plateCorners x, ∀ a ∈ Axis.all,
      Float32.isFinite (v.position.component a) = true := by
    decide +kernel
  have spanned x (place : x ∈ [(0 : Scalar),8]) : Finite (platform x) := by
    intro t member
    cases List.mem_singleton.mp member
    exact Triangle.madeSpans (plateMade x) fun v corner a => numbers x place v corner a a.memAll
  exact ⟨spanned 0 (by simp),spanned 8 (by simp)⟩

theorem platesCounted (x y : Scalar) : (platform x).triangles.size = (platform y).triangles.size := by
  simp [platform]

theorem vacantUnusable (scene : Scene) (force : Bool) : ∀ g, ¬Usable scene force vacant g := by
  intro g usable
  cases usable.loaded

theorem plateBuilt : (build (platform 0).triangles.toList).result = .ok platePatch := by
  have tree : Tree.build (Item.ofTriangles (platform 0).triangles.toList) =
      .ofItems (Item.ofTriangles (platform 0).triangles.toList) :=
    Tree.buildAtLeaf (.inl (by decide))
  rw [Hierarchy.buildLaid (by simp [platform]) (by decide),tree,if_pos (by decide)]
  decide +kernel

theorem plateGiven : (update (platform 0) false vacant).result = .ok platePatch := by
  rw [updateBuilt rfl (vacantUnusable _ false)]
  exact (rebuildFields _ _).1.trans plateBuilt

theorem plateAgain : (update (platform 8) false (update (platform 0) false vacant).slot).result =
    .ok platePatch := by
  obtain ⟨built,bytes,encoded,file⟩ := updateWrote rfl (vacantUnusable _ false) ⟨by decide,rfl⟩ plateGiven
  have usable : Usable (platform 8) false (vacant.holding bytes) platePatch :=
    (writtenUsable rfl built encoded).mpr ⟨rfl,platesCounted 8 0,rfl⟩
  rw [file,updateUsed usable]

theorem plateKept : platePatch.Encloses (platform 0).triangles.toList ∧
    (platePatch.Encloses (platform 8).triangles.toList ↔
      platePatch.Keeps (platform 0).triangles.toList (platform 8).triangles.toList) := by
  obtain ⟨encloses,kept,_⟩ := @editedHierarchy (platform 0) (platform 8) false vacant platePatch platePatch
    platesFinite.1 platesFinite.2 rfl rfl (vacantUnusable _ false) ⟨by decide,rfl⟩ plateGiven plateAgain
  exact ⟨encloses,(kept (platesCounted 8 0) rfl).2⟩

theorem plateEscapes : Finite (platform 0) ∧ Finite (platform 8) ∧
    (platform 8).source = (platform 0).source ∧ (∀ g, ¬Usable (platform 0) false vacant g) ∧
    vacant.Writes ∧ ∃ h, (update (platform 0) false vacant).result = .ok h ∧
      (update (platform 8) false (update (platform 0) false vacant).slot).result = .ok h ∧
      ¬h.Encloses (platform 8).triangles.toList := by
  refine ⟨platesFinite.1,platesFinite.2,rfl,vacantUnusable _ false,⟨by decide,rfl⟩,platePatch,plateGiven,
    plateAgain,fun encloses => ?_⟩
  obtain ⟨s,read,below⟩ := encloses 0 (by decide)
  have spelled : platePatch.treeFrom 1 0 = some (.leaf (plate 0).bounds [0]) := by decide +kernel
  cases Option.some.inj (read.symm.trans spelled)
  obtain ⟨t,there,inside⟩ := below 0 (by simp [Tree.triangles,Tree.leaves])
  cases Option.some.inj there
  revert inside
  decide +kernel

end Cache
end Sightline
