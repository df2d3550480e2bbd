import Sightline.Proofs.Bounds
import Sightline.Proofs.Framing
import Sightline.Proofs.Walk

/-! What a cache can do to a scene. A request ends in one of two ways: the hierarchy in the file is taken as it
is, which needs a file that reads and fits the scene, or the hierarchy is the one that a build gives and the
file is the only thing that depends on what may be written. A hierarchy that is handed out fits the scene in
both cases, so whatever becomes of the file between two requests, no search is led astray. What a build has
written is taken by the next request, provided that the file may be read. -/
namespace Sightline

namespace Hierarchy
variable {triangles : List Triangle} {h : Hierarchy}

theorem builtEncodes (built : (build triangles).result = .ok h) :
    0 < h.nodes.size ∧ ∃ bytes, h.encode = .ok bytes := by
  obtain ⟨nonempty,few,_,same⟩ := builtLaid built
  have limit : Node.leafLimit < 4294967296 := by decide
  have nodes : h.nodes.size = (Tree.build (Item.ofTriangles triangles)).nodeCount := by
    rw [same,laidNodes]
  have order : h.order.size = triangles.length := by
    rw [same,← Array.length_toList,laidOrder,Tree.trianglesLength,builtCount]
  have some := (Tree.build (Item.ofTriangles triangles)).nodeCountPositive
  have most := builtNodes nonempty
  exact ⟨by omega,_,encodeIff.mpr ⟨by omega,by omega,rfl⟩⟩

theorem builtReports (built : (build triangles).result = .ok h) : (build triangles).progress ≠ [] := by
  obtain ⟨nonempty,few,_⟩ := builtLaid built
  rw [build,if_neg (by simpa using nonempty),if_neg (Nat.not_lt.mpr few)]
  exact List.append_ne_nil_of_right_ne_nil _ (List.cons_ne_nil _ _)

def halves (n : Nat) : Tree StoredBox :=
  .inner (.ofBox .empty) (.leaf (.ofBox .empty) ((List.range (n / 2)).map Nat.toUInt32))
    (.leaf (.ofBox .empty) ((List.range' (n / 2) (n - n / 2)).map Nat.toUInt32))

theorem halvesTriangles (n : Nat) : (halves n).triangles = (List.range n).map Nat.toUInt32 := by
  have whole : n / 2 + (n - n / 2) = n := by omega
  have parts := @List.range'_append_1 0 (n / 2) (n - n / 2)
  rw [Nat.zero_add,whole,← List.range_eq_range',← List.range_eq_range'] at parts
  rw [← parts,List.map_append,halves,Tree.trianglesInner]
  simp [Tree.triangles,Tree.leaves]

theorem halvesFits {n : Nat} (few : n < 4294967295) : (halves n).Fits where
  countable := by
    refine Tree.countableInner.mpr ⟨Tree.countableLeaf.mpr ?_,Tree.countableLeaf.mpr ?_⟩
    · rw [List.length_map,List.length_range]
      show _ ≤ 2147483647
      omega
    · rw [List.length_map,List.length_range']
      show _ ≤ 2147483647
      omega
  nodes := by
    show 3 ≤ 2147483648
    decide
  triangles := by
    rw [← Tree.trianglesLength,halvesTriangles,List.length_map,List.length_range]
    show n ≤ 4294967295
    omega

/- Some file fits, whatever the number of triangles is. -/
theorem halvesFile {n : Nat} (few : n < 4294967295) : ∃ h bytes, decode bytes = .ok h ∧ h.check n = .ok () := by
  have nodes : (halves n).laid.nodes.size = 3 := Tree.nodesLength 0 0 (halves n)
  have listed : (halves n).laid.order.toList = (List.range n).map Nat.toUInt32 := halvesTriangles n
  have size : (halves n).laid.order.size = n := by
    rw [← Array.length_toList,listed,List.length_map,List.length_range]
  have numbers : ((halves n).laid.order.toList.map UInt32.toNat) = List.range n := by
    rw [listed,List.map_map]
    refine (List.map_congr_left fun i member => ?_).trans (List.map_id _)
    have below := List.mem_range.mp member
    exact wordKept (by omega)
  have shallow : (halves n).depth < stackCapacity := by
    show 1 < 32
    decide
  obtain ⟨complete,_⟩ := laidComplete (halvesFits few) shallow
  have written := encodeIff.mpr ⟨show (halves n).laid.nodes.size < 4294967296 by omega,by omega,rfl⟩
  exact ⟨(halves n).laid,_,decodeWritten (by omega) written,
    (checkComplete _ _).mpr ⟨⟨_,complete⟩,numbers ▸ List.Perm.refl _⟩⟩

end Hierarchy

namespace Cache
open Hierarchy (build)

structure Usable (scene : Scene) (force : Bool) (slot : Slot) (h : Hierarchy) : Prop where
  nonempty : scene.triangles.isEmpty = false
  sourced : scene.source.isSome = true
  unforced : force = false
  loaded : slot.load = .ok h
  fits : h.check scene.triangles.size = .ok ()

section
variable {scene : Scene} {force : Bool} {slot : Slot} {h : Hierarchy}

theorem trustedIff {triangles : Nat} :
    slot.trusted triangles = some h ↔ slot.load = .ok h ∧ h.check triangles = .ok () := by
  constructor
  · exact trustedChecked
  · intro good
    simp only [Slot.trusted,good.1,good.2]

theorem updateUsed (usable : Usable scene force slot h) :
    update scene force slot = ⟨.ok h,[],slot⟩ := by
  have trusted := trustedIff.mpr ⟨usable.loaded,usable.fits⟩
  simp [update,usable.nonempty,Option.isNone_iff_eq_none,Option.isSome_iff_ne_none.mp usable.sourced,
    usable.unforced,trusted]

theorem rebuildFields (scene : Scene) (slot : Slot) :
    (rebuild scene slot).result = (build scene.triangles.toList).result ∧
      (rebuild scene slot).progress = (build scene.triangles.toList).progress := by
  unfold rebuild
  dsimp only
  split <;> simp [*]

theorem buildEmpty : build [] = ⟨.error .emptyScene,[]⟩ := rfl

theorem updateBuilt (sourced : scene.source.isSome = true) (unusable : ∀ h, ¬Usable scene force slot h) :
    update scene force slot = rebuild scene slot := by
  cases nonempty : scene.triangles.isEmpty with
  | true =>
    have none : scene.triangles.toList = [] := by simpa using nonempty
    simp [update,nonempty,rebuild,none,buildEmpty]
  | false =>
    have source := Option.isSome_iff_ne_none.mp sourced
    have distrusted : (if force then none else slot.trusted scene.triangles.size) = none := by
      cases force with
      | true => rfl
      | false =>
        refine Option.eq_none_iff_forall_ne_some.mpr fun h trusted => unusable h ?_
        obtain ⟨loaded,fits⟩ := trustedIff.mp trusted
        exact ⟨nonempty,sourced,rfl,loaded,fits⟩
    simp [update,nonempty,Option.isNone_iff_eq_none,source,distrusted]

theorem updateUnsourced (unsourced : scene.source.isSome = false) : update scene force slot =
    ⟨(build scene.triangles.toList).result,(build scene.triangles.toList).progress,slot⟩ := by
  have source : scene.source = none := by simpa using unsourced
  cases nonempty : scene.triangles.isEmpty with
  | true =>
    have none : scene.triangles.toList = [] := by simpa using nonempty
    simp [update,nonempty,none,buildEmpty]
  | false => simp [update,nonempty,source]

theorem updateResult : (∃ h, Usable scene force slot h ∧ (update scene force slot).result = .ok h) ∨
    (update scene force slot).result = (build scene.triangles.toList).result := by
  cases sourced : scene.source.isSome with
  | false => exact .inr (by rw [updateUnsourced sourced])
  | true =>
    by_cases used : ∃ h, Usable scene force slot h
    · obtain ⟨h,usable⟩ := used
      exact .inl ⟨h,usable,by rw [updateUsed usable]⟩
    · rw [updateBuilt sourced (not_exists.mp used)]
      exact .inr (rebuildFields scene slot).1

theorem updateFits (given : (update scene force slot).result = .ok h) :
    h.check scene.triangles.size = .ok () := by
  rcases @updateResult scene force slot with used | built
  · obtain ⟨g,usable,same⟩ := used
    cases Except.ok.inj (given.symm.trans same)
    exact usable.fits
  · exact Hierarchy.builtAccepted (built.symm.trans given)

end

namespace Slot
variable {slot : Slot} {h : Hierarchy} {bytes : List UInt8}

structure Writes (slot : Slot) : Prop where
  free : slot.entry ≠ .directory
  allowed : slot.writable = true

def holding (slot : Slot) (bytes : List UInt8) : Slot := { slot with entry := .file bytes }

theorem storeWritten (writes : slot.Writes) (encoded : h.encode = .ok bytes) :
    slot.store h = slot.holding bytes := by
  simp [store,save,encoded,writes.free,writes.allowed,holding]

theorem writesAgain (writes : slot.Writes) : (slot.holding bytes).Writes :=
  ⟨Entry.noConfusion,writes.allowed⟩

theorem loadHolding (readable : slot.readable = true) :
    (slot.holding bytes).load = Hierarchy.decode bytes := if_pos readable

theorem loadUnreadable (unreadable : slot.readable = false) :
    (slot.holding bytes).load = .error (.io .refused) := if_neg (Bool.eq_false_iff.mp unreadable)

end Slot

section
variable {scene : Scene} {slot : Slot} {h : Hierarchy} {bytes : List UInt8}

theorem rebuildWritten (built : (build scene.triangles.toList).result = .ok h) (writes : slot.Writes)
    (encoded : h.encode = .ok bytes) : rebuild scene slot =
      ⟨.ok h,(build scene.triangles.toList).progress,slot.holding bytes⟩ := by
  simp only [rebuild,built,Slot.storeWritten writes encoded]

theorem rebuildFailed {e : BuildError} (failed : (build scene.triangles.toList).result = .error e) :
    rebuild scene slot = ⟨.error e,(build scene.triangles.toList).progress,slot⟩ := by
  simp only [rebuild,failed]

theorem builtNonempty (built : (build scene.triangles.toList).result = .ok h) :
    scene.triangles.isEmpty = false := by
  obtain ⟨some,_⟩ := Hierarchy.builtLaid built
  simpa using some

/- The file that a build has left is taken as it is, or, where it may not be read, written once more. -/
theorem updateAgain (sourced : scene.source.isSome = true)
    (built : (build scene.triangles.toList).result = .ok h) (writes : slot.Writes)
    (encoded : h.encode = .ok bytes) : update scene false (slot.holding bytes) =
      ⟨.ok h,if slot.readable then [] else (build scene.triangles.toList).progress,slot.holding bytes⟩ := by
  cases readable : slot.readable with
  | true =>
    have loaded : (slot.holding bytes).load = .ok h := by
      rw [Slot.loadHolding readable]
      exact Hierarchy.decodeWritten (Hierarchy.builtEncodes built).1 encoded
    exact updateUsed ⟨builtNonempty built,sourced,rfl,loaded,Hierarchy.builtAccepted built⟩
  | false =>
    have unusable : ∀ g, ¬Usable scene false (slot.holding bytes) g := by
      intro g usable
      cases (Slot.loadUnreadable readable).symm.trans usable.loaded
    rw [updateBuilt sourced unusable,rebuildWritten built (Slot.writesAgain writes) encoded]
    rfl

theorem resultLoaded {force : Bool} {other : Slot}
    (alike : ∀ h, other.load = .ok h ↔ slot.load = .ok h) :
    (update scene force other).result = (update scene force slot).result := by
  have trusted : other.trusted scene.triangles.size = slot.trusted scene.triangles.size :=
    Option.ext fun h => by rw [trustedIff,trustedIff,alike]
  simp only [update,trusted]
  split
  · rfl
  split
  · rfl
  split
  · rfl
  · exact (rebuildFields scene other).1.trans (rebuildFields scene slot).1.symm

theorem manyTaken (sourced : scene.source.isSome = true)
    (many : Node.leafLimit < scene.triangles.size) (few : scene.triangles.size < 4294967295) :
    ∃ slot h e, update scene false slot = ⟨.ok h,[],slot⟩ ∧ (build scene.triangles.toList).result = .error e := by
  obtain ⟨h,bytes,decoded,fits⟩ := Hierarchy.halvesFile few
  have nonempty : scene.triangles.isEmpty = false := by
    rw [Array.isEmpty,decide_eq_false_iff_not]
    omega
  have length := scene.triangles.length_toList
  have listed : scene.triangles.toList ≠ [] := List.ne_nil_of_length_pos (by omega)
  refine ⟨⟨.file bytes,true,true,true⟩,h,.tooManyTriangles scene.triangles.size,
    updateUsed ⟨nonempty,sourced,rfl,decoded,fits⟩,?_⟩
  rw [build,if_neg (by simpa using listed),if_pos (by omega),length]

theorem updateExact (sourced : scene.source.isSome = true) (force : Bool) (slot : Slot) :
    (∀ h, Usable scene force slot h → update scene force slot = ⟨.ok h,[],slot⟩) ∧
    ((∀ h, ¬Usable scene force slot h) →
      (update scene force slot).result = (build scene.triangles.toList).result ∧
      (∀ h, (build scene.triangles.toList).result = .ok h → slot.Writes → ∃ bytes, h.encode = .ok bytes ∧
        (update scene force slot).slot = slot.holding bytes ∧
        (update scene false (slot.holding bytes)).result = .ok h ∧
        (update scene false (slot.holding bytes)).slot = slot.holding bytes ∧
        (update scene false (slot.holding bytes)).progress =
          if slot.readable then [] else (build scene.triangles.toList).progress) ∧
      ∀ e, (build scene.triangles.toList).result = .error e →
        (update scene force slot).result = .error e ∧ (update scene force slot).slot = slot) ∧
    (scene.triangles.isEmpty = true → update scene force slot = ⟨.error .emptyScene,[],slot⟩) ∧
    ∀ other : Slot, (∀ h, other.load = .ok h ↔ slot.load = .ok h) →
      (update scene force other).result = (update scene force slot).result := by
  refine ⟨fun h => updateUsed,?_,?_,?_⟩
  · intro unusable
    rw [updateBuilt sourced unusable]
    refine ⟨(rebuildFields scene slot).1,?_,?_⟩
    · intro h built writes
      obtain ⟨_,bytes,encoded⟩ := Hierarchy.builtEncodes built
      have again := updateAgain sourced built writes encoded
      refine ⟨bytes,encoded,by rw [rebuildWritten built writes encoded],?_⟩
      rw [again]
      exact ⟨rfl,rfl,rfl⟩
    · intro e failed
      rw [rebuildFailed failed]
      exact ⟨rfl,rfl⟩
  · intro empty
    exact if_pos empty
  · intro other
    exact resultLoaded

end

def sheet : Scene :=
  (Scene.ofMesh (.ofParts #[⟨0,0,0⟩,⟨1,0,0⟩,⟨0,1,0⟩,⟨1,1,0⟩] #[0,1,2,2,1,3] none) .one).withSource "sheet.obj"

def spoiled : Slot := ⟨.file [7,0,0],true,true,true⟩

theorem sheetBuilt : ∃ h, (build sheet.triangles.toList).result = .ok h := by
  have some : sheet.triangles.toList ≠ [] := by decide +kernel
  have few : sheet.triangles.toList.length ≤ Node.leafLimit := by decide +kernel
  have shallow : (Tree.build (Item.ofTriangles sheet.triangles.toList)).depth < Hierarchy.stackCapacity := by
    rw [Tree.build,Tree.buildAtLeaf (.inl (by decide +kernel))]
    decide
  exact ⟨_,(Hierarchy.buildLaid some few).trans (if_pos shallow)⟩

theorem spoiledUnusable (scene : Scene) (force : Bool) : ∀ h, ¬Usable scene force spoiled h := by
  intro h usable
  cases usable.loaded

theorem sheetExact : ∃ h bytes, h.encode = .ok bytes ∧ (update sheet false spoiled).result = .ok h ∧
    (update sheet false spoiled).slot = spoiled.holding bytes ∧
    (update sheet false (spoiled.holding bytes)).result = .ok h ∧
    (update sheet false (spoiled.holding bytes)).progress = [] := by
  obtain ⟨_,fresh,_,_⟩ := @updateExact sheet rfl false spoiled
  obtain ⟨result,written,_⟩ := fresh (spoiledUnusable sheet false)
  obtain ⟨h,built⟩ := sheetBuilt
  obtain ⟨bytes,encoded,file,again,_,silent⟩ := written h built ⟨by decide,rfl⟩
  exact ⟨h,bytes,encoded,result.trans built,file,again,silent⟩

/- A file that may be written but not read is of no use to the next request, which builds anew. -/
def sealed : Slot := ⟨.file [7,0,0],false,true,true⟩

theorem sealedAgain : sealed.Writes ∧ (∀ g, ¬Usable sheet false sealed g) ∧
    ∃ h, (build sheet.triangles.toList).result = .ok h ∧
      (update sheet false (update sheet false sealed).slot).progress ≠ [] := by
  obtain ⟨h,built⟩ := sheetBuilt
  have writes : sealed.Writes := ⟨by decide,rfl⟩
  have unusable : ∀ g, ¬Usable sheet false sealed g := by
    intro g usable
    cases usable.loaded
  obtain ⟨_,bytes,encoded⟩ := Hierarchy.builtEncodes built
  refine ⟨writes,unusable,h,built,?_⟩
  rw [updateBuilt rfl unusable,rebuildWritten built writes encoded,updateAgain rfl built writes encoded]
  exact Hierarchy.builtReports built

/- One triangle more than a build can number; a file can still list them all, in two leaves. -/
def crowd (t : Triangle) : Scene := ⟨#[],.replicate (Node.leafLimit + 1) t,#[],some "crowd.obj"⟩

theorem sealedReports : (¬∀ (scene : Scene) (force : Bool) (slot : Slot) (h : Hierarchy),
      scene.source.isSome = true → (∀ g, ¬Usable scene force slot g) →
        (build scene.triangles.toList).result = .ok h → slot.Writes →
          (update scene false (update scene force slot).slot).progress = []) ∧
    ¬∀ (scene : Scene) (force : Bool) (slot : Slot) (e : BuildError), scene.source.isSome = true →
      (build scene.triangles.toList).result = .error e → (update scene force slot).result = .error e := by
  constructor
  · intro silent
    obtain ⟨writes,unusable,h,built,reports⟩ := sealedAgain
    exact reports (silent sheet false sealed h rfl unusable built writes)
  · intro failing
    suffices refuted : Triangle → False from
      refuted (Triangle.ofPoints ⟨0,0,0⟩ ⟨1,0,0⟩ ⟨0,1,0⟩ ⟨0,1,2⟩ ⟨1,1,1⟩ false)
    intro t
    have size : (crowd t).triangles.size = Node.leafLimit + 1 := Array.size_replicate
    obtain ⟨slot,h,e,taken,failed⟩ := @manyTaken (crowd t) rfl (by omega) (by rw [size]; decide)
    have refused := failing (crowd t) false slot e rfl failed
    rw [taken] at refused
    cases refused

inductive Event where
  | request (scene : Scene) (sourced force : Bool)
  | disturb (slot : Slot)

structure Answer where
  scene : Scene
  updated : Updated

def named (source : String) (scene : Scene) (sourced : Bool) : Scene :=
  { scene with source := if sourced then some source else none }

def happen (source : String) (slot : Slot) : Event → Slot × List Answer
  | .request scene sourced force =>
    let u := update (named source scene sourced) force slot
    (u.slot,[⟨scene,u⟩])
  | .disturb other => (other,[])

def answers (source : String) : Slot → List Event → List Answer
  | _, [] => []
  | slot, event :: rest => (happen source slot event).2 ++ answers source (happen source slot event).1 rest

def Answer.Fits (a : Answer) : Prop :=
  ∀ h, a.updated.result = .ok h → h.check a.scene.triangles.size = .ok ()

theorem happenFits (source : String) (slot : Slot) (event : Event) :
    ∀ a ∈ (happen source slot event).2, a.Fits := by
  cases event with
  | disturb other => simp [happen]
  | request scene sourced force =>
    intro a member h given
    cases List.mem_singleton.mp member
    exact @updateFits (named source scene sourced) force slot h given

theorem answersFit (source : String) (slot : Slot) (events : List Event) :
    ∀ a ∈ answers source slot events, a.Fits := by
  induction events generalizing slot with
  | nil => simp [answers]
  | cons event rest ih =>
    intro a member
    rcases List.mem_append.mp member with here | later
    · exact happenFits source slot event a here
    · exact ih _ a later

theorem runSafe (source : String) (slot : Slot) (events : List Event) :
    ∀ a ∈ answers source slot events, ∀ h, a.updated.result = .ok h →
      h.check a.scene.triangles.size = .ok () ∧ ∀ q : Query,
        (∃ hit, h.closestHit a.scene.triangles q = .ok hit) ∧
        ∀ light, ∃ blocked, h.occluded a.scene.triangles q light = .ok blocked := by
  intro a member h given
  have fits := answersFit source slot events a member h given
  exact ⟨fits,fun _ => ⟨Hierarchy.searchAnswers fits _,fun _ => Hierarchy.searchAnswers fits _⟩⟩

def spoiledRun : List Event := [.request sheet true true,.disturb spoiled,.request sheet true false]

theorem spoiledRunSafe : ∃ a ∈ answers "sheet.obj" ⟨.missing,true,true,true⟩ spoiledRun, ∃ h,
    a.updated.result = .ok h ∧ h.check a.scene.triangles.size = .ok () ∧ ∀ q : Query,
      (∃ hit, h.closestHit a.scene.triangles q = .ok hit) ∧
      ∀ light, ∃ blocked, h.occluded a.scene.triangles q light = .ok blocked := by
  have last : ⟨sheet,update (named "sheet.obj" sheet true) false spoiled⟩ ∈
      answers "sheet.obj" ⟨.missing,true,true,true⟩ spoiledRun := by
    simp [answers,spoiledRun,happen]
  obtain ⟨h,built⟩ := sheetBuilt
  have given : (update (named "sheet.obj" sheet true) false spoiled).result = .ok h := by
    rw [updateBuilt rfl (spoiledUnusable _ false)]
    exact (rebuildFields _ _).1.trans built
  exact ⟨_,last,h,given,runSafe _ _ _ _ last h given⟩

end Cache
end Sightline
