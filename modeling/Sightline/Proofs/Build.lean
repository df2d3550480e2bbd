import Sightline.Proofs.Layout

/-! What a build comes to. Dividing only sorts the triangles into two filters of one list and both halves
hold at least two, so whatever the geometry is, each triangle is in one leaf once, and a tree has fewer
nodes than it has triangles unless it is a single leaf. Laid out, such a tree passes its check. A build can
therefore fail on depth alone. -/
namespace Sightline

namespace Split

theorem sidesPerm (s : Split) (work : List Item) : (s.left work ++ s.right work).Perm work :=
  List.filter_append_perm s.goesLeft work

end Split

namespace Tree

theorem buildAtInduction {P : List Item → Nat → Tree → Prop}
    (leaf : ∀ work depth, P work depth (ofItems work))
    (inner : ∀ work depth (s : Split), Split.find work (Item.boundsOf work) depth = some s →
      P (s.left work) (depth + 1) (buildAt (s.left work) (depth + 1)) →
      P (s.right work) (depth + 1) (buildAt (s.right work) (depth + 1)) →
      P work depth (join (buildAt (s.left work) (depth + 1)) (buildAt (s.right work) (depth + 1))))
    (work : List Item) (depth : Nat) : P work depth (buildAt work depth) := by
  induction work, depth using buildAt.induct with
  | case1 work depth small =>
    rw [buildAtLeaf (.inl small)]
    exact leaf work depth
  | case2 work depth large best found s hl hr =>
    have found := (Option.some_get found).symm
    rw [buildAtInner large found]
    exact inner work depth _ found hl hr
  | case3 work depth large best none =>
    rw [buildAtLeaf (.inr (Option.not_isSome_iff_eq_none.mp none))]
    exact leaf work depth

theorem buildAtTriangles (work : List Item) (depth : Nat) :
    (buildAt work depth).triangles.Perm (work.map Item.triangle) := by
  induction work, depth using buildAtInduction with
  | leaf work depth => simp [ofItems,triangles,leaves]
  | inner work depth s found hl hr =>
    have sides := (s.sidesPerm work).map Item.triangle
    rw [List.map_append] at sides
    rw [join,trianglesInner]
    exact (hl.append hr).trans sides

theorem buildAtNodes (work : List Item) (depth : Nat) :
    2 ≤ work.length → (buildAt work depth).nodeCount < work.length := by
  induction work, depth using buildAtInduction with
  | leaf work depth => exact id
  | inner work depth s found hl hr =>
    intro several
    obtain ⟨c,priced⟩ := Split.foundCost found
    obtain ⟨left,right⟩ := Split.costShrinks priced
    have sides := s.lengths work
    have fewL := hl left
    have fewR := hr right
    rw [join,nodeCount]
    omega

theorem leafTriangles {t : Tree} {ts : List UInt32} (leaf : ts ∈ t.leaves) :
    ts.length ≤ t.triangleCount := by
  rw [← trianglesLength,triangles]
  exact (List.sublist_flatten_of_mem leaf).length_le

end Tree

namespace Item

theorem numbered {triangles : List Triangle} (few : triangles.length ≤ 4294967296) :
    ((ofTriangles triangles).map triangle).map UInt32.toNat = List.range triangles.length := by
  refine List.ext_getElem (by simp [ofTriangles]) fun i here there => ?_
  rw [List.length_range] at there
  simp [ofTriangles,ofTriangle]
  omega

end Item

namespace Hierarchy
section
variable {triangles : List Triangle}

theorem builtTriangles (few : triangles.length ≤ Node.leafLimit) :
    ((Tree.build (Item.ofTriangles triangles)).triangles.map UInt32.toNat).Perm
      (List.range triangles.length) := by
  rw [← Item.numbered (Nat.le_trans few (by decide))]
  exact (Tree.buildAtTriangles _ 0).map UInt32.toNat

theorem builtOrder (few : triangles.length ≤ Node.leafLimit) :
    ((Tree.build (Item.ofTriangles triangles)).stored.laid.order.toList.map UInt32.toNat).Perm
      (List.range triangles.length) := by
  rw [laidOrder]
  exact builtTriangles few

theorem builtCount : (Tree.build (Item.ofTriangles triangles)).triangleCount = triangles.length := by
  rw [← Tree.trianglesLength,Tree.build,(Tree.buildAtTriangles _ 0).length_eq]
  simp [Item.ofTriangles]

theorem builtNodes (nonempty : triangles ≠ []) :
    (Tree.build (Item.ofTriangles triangles)).nodeCount ≤ triangles.length := by
  have size : (Item.ofTriangles triangles).length = triangles.length := List.length_mapIdx
  have some := List.length_pos_of_ne_nil nonempty
  by_cases several : 2 ≤ triangles.length
  · have fewer := Tree.buildAtNodes _ 0 (size ▸ several)
    rw [Tree.build]
    omega
  · rw [Tree.build,Tree.buildAtLeaf (.inl (by rw [size]; show _ < 4; omega))]
    exact some

theorem builtFits (nonempty : triangles ≠ []) (few : triangles.length ≤ Node.leafLimit) :
    (Tree.build (Item.ofTriangles triangles)).Fits where
  countable ts leaf := by
    have most := Tree.leafTriangles leaf
    rw [builtCount] at most
    exact Nat.le_trans most few
  nodes := Nat.le_trans (builtNodes nonempty) (Nat.le_trans few (by decide))
  triangles := by
    rw [builtCount]
    exact Nat.le_trans few (by decide)

theorem buildLaid (nonempty : triangles ≠ []) (few : triangles.length ≤ Node.leafLimit) :
    (build triangles).result =
      if (Tree.build (Item.ofTriangles triangles)).depth < stackCapacity then
        .ok (Tree.build (Item.ofTriangles triangles)).stored.laid
      else .error (.tooDeep (Tree.build (Item.ofTriangles triangles)).depth stackCapacity) := by
  rw [build,if_neg (by simpa using nonempty),if_neg (Nat.not_lt.mpr few)]
  exact ofTreeLaid (builtFits nonempty few)

theorem builtChecked (nonempty : triangles ≠ []) (few : triangles.length ≤ Node.leafLimit)
    (shallow : (Tree.build (Item.ofTriangles triangles)).depth < stackCapacity) :
    (Tree.build (Item.ofTriangles triangles)).stored.laid.check triangles.length = .ok () := by
  obtain ⟨complete,_⟩ := treeLaid (builtFits nonempty few) shallow
  exact (checkComplete _ _).mpr ⟨⟨_,complete⟩,builtOrder few⟩

theorem buildChecked (nonempty : triangles ≠ []) (few : triangles.length ≤ Node.leafLimit) :
    ((∃ h, (build triangles).result = .ok h) ↔ (Tree.build (Item.ofTriangles triangles)).depth ≤ 31) ∧
      (∀ e, (build triangles).result = .error e →
        e = .tooDeep (Tree.build (Item.ofTriangles triangles)).depth 32) ∧
      ∀ h, (build triangles).result = .ok h → h.check triangles.length = .ok () ∧
        (h.order.toList.map UInt32.toNat).Perm (List.range triangles.length) := by
  rw [buildLaid nonempty few]
  by_cases shallow : (Tree.build (Item.ofTriangles triangles)).depth < stackCapacity
  · rw [if_pos shallow]
    refine ⟨⟨fun _ => Nat.le_of_lt_succ shallow,fun _ => ⟨_,rfl⟩⟩,fun e failed => (nomatch failed),?_⟩
    intro h built
    cases Except.ok.inj built
    exact ⟨builtChecked nonempty few shallow,builtOrder few⟩
  · rw [if_neg shallow]
    refine ⟨⟨?_,fun fits => (shallow (Nat.lt_succ_of_le fits)).elim⟩,?_,fun h built => (nomatch built)⟩
    · rintro ⟨h,built⟩
      contradiction
    · rintro e failed
      exact (Except.error.inj failed).symm

end

def degenerate : List Triangle :=
  [.ofPoints ⟨0,0,0⟩ ⟨1,0,0⟩ ⟨0,1,0⟩ ⟨0,1,2⟩ ⟨1,1,1⟩ true,
    .ofPoints (.splat (0 / 0)) (.splat (0 / 0)) (.splat (0 / 0)) ⟨3,4,5⟩ ⟨1,1,1⟩ false]

theorem degenerateBuilt : ∃ h, (build degenerate).result = .ok h ∧ h.check 2 = .ok () := by
  obtain ⟨fits,_,checked⟩ := @buildChecked degenerate (by decide +kernel) (by decide +kernel)
  obtain ⟨h,built⟩ := fits.mpr (by
    rw [Tree.build,Tree.buildAtLeaf (.inl (by decide +kernel))]
    decide)
  exact ⟨h,built,(checked h built).1⟩

end Hierarchy
end Sightline
