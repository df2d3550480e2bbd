import Sightline.Proofs.Bounds

/-! How large a built tree can become. Both sides of a division hold at least two items, so a leaf beneath a
division is never alone with one triangle, and every level and every node is paid for by two items. A few items
cannot make a deep tree, then, and nodes can always be numbered without the bit that marks a leaf, whatever the
items are and wherever the planes between them lie. -/
namespace Sightline

namespace Tree

section
variable {work : List Item}

theorem sidesFilled {depth : Nat} {s : Split} (found : Split.find work (Item.boundsOf work) depth = some s) :
    2 ≤ (s.left work).length ∧ 2 ≤ (s.right work).length := by
  obtain ⟨c,priced⟩ := Split.foundCost found
  exact Split.costShrinks priced

def Filled (t : Tree) : Prop := ∀ s ∈ t.subtrees, 2 ≤ s.triangleCount ∧ (s.isLeaf = false → 4 ≤ s.triangleCount)

theorem filledJoin {l r : Tree} (left : l.Filled) (right : r.Filled) : (join l r).Filled := by
  intro s member
  rcases List.mem_cons.mp member with rfl | member
  · have some := (left l (selfSubtree l)).1
    have others := (right r (selfSubtree r)).1
    rw [triangleCount]
    omega
  · rcases List.mem_append.mp member with member | member
    · exact left s member
    · exact right s member

theorem buildAtFilled (work : List Item) (depth : Nat) : 2 ≤ work.length → (buildAt work depth).Filled := by
  induction work, depth using buildAtInduction with
  | leaf work depth =>
    intro several s member
    cases List.mem_singleton.mp member
    refine ⟨?_,fun inner => nomatch inner⟩
    show 2 ≤ (work.map Item.triangle).length
    rwa [List.length_map]
  | inner work depth s found hl hr =>
    intro several
    obtain ⟨left,right⟩ := sidesFilled found
    exact filledJoin (hl left) (hr right)

theorem buildAtDepth (work : List Item) (depth : Nat) :
    2 ≤ work.length → 2 * ((buildAt work depth).depth + 1) ≤ work.length := by
  induction work, depth using buildAtInduction with
  | leaf work depth => exact id
  | inner work depth s found hl hr =>
    intro several
    obtain ⟨left,right⟩ := sidesFilled found
    have sides := s.lengths work
    have lowL := hl left
    have lowR := hr right
    rw [join,Tree.depth]
    omega

theorem buildSingle (single : work.length < 2) : build work = ofItems work :=
  buildAtLeaf (.inl (Nat.lt_trans single (by decide)))

theorem buildFilled {s : Tree} (member : s ∈ (build work).subtrees) (inner : s.isLeaf = false) :
    4 ≤ s.triangleCount := by
  by_cases several : 2 ≤ work.length
  · exact (buildAtFilled work 0 several s member).2 inner
  · rw [buildSingle (Nat.not_le.mp several)] at member
    cases List.mem_singleton.mp member
    contradiction

theorem leafSubtree {t : Tree} {ts : List UInt32} (leaf : ts ∈ t.leaves) : ∃ b, Tree.leaf b ts ∈ t.subtrees := by
  induction t with
  | leaf b us =>
    cases List.mem_singleton.mp leaf
    exact ⟨b,selfSubtree _⟩
  | inner b l r hl hr =>
    rcases List.mem_append.mp leaf with leaf | leaf
    · obtain ⟨c,member⟩ := hl leaf
      exact ⟨c,List.mem_cons_of_mem _ (List.mem_append_left _ member)⟩
    · obtain ⟨c,member⟩ := hr leaf
      exact ⟨c,List.mem_cons_of_mem _ (List.mem_append_right _ member)⟩

theorem buildLeaves (inner : (build work).isLeaf = false) : ∀ ts ∈ (build work).leaves, 2 ≤ ts.length := by
  intro ts leaf
  by_cases several : 2 ≤ work.length
  · obtain ⟨b,member⟩ := leafSubtree leaf
    exact (buildAtFilled work 0 several _ member).1
  · rw [buildSingle (Nat.not_le.mp several)] at inner
    contradiction

theorem buildNodes (work : List Item) : (build work).nodeCount ≤ max 1 (work.length - 1) := by
  by_cases several : 2 ≤ work.length
  · have fewer := buildAtNodes work 0 several
    rw [build]
    omega
  · rw [buildSingle (Nat.not_le.mp several)]
    exact Nat.le_max_left _ _

theorem buildDepth (work : List Item) : (build work).depth ≤ work.length / 2 - 1 := by
  by_cases several : 2 ≤ work.length
  · have low := buildAtDepth work 0 several
    rw [build]
    omega
  · rw [buildSingle (Nat.not_le.mp several)]
    exact Nat.zero_le _

end
end Tree

namespace Hierarchy
section
variable {triangles : List Triangle} {h : Hierarchy}

theorem builtSize (built : (build triangles).result = .ok h) :
    h.nodes.size = (Tree.build (Item.ofTriangles triangles)).nodeCount := by
  obtain ⟨_,_,_,rfl⟩ := builtLaid built
  exact laidNodes _

theorem completeChildren {p : Plan} (complete : h.Complete p) {node : Node} (member : node ∈ h.nodes)
    {left right : UInt32} (kind : node.kind = .inner left right) :
    left.toNat < h.nodes.size ∧ right.toNat < h.nodes.size := by
  obtain ⟨place,inside,rfl⟩ := Array.mem_iff_getElem.mp member
  obtain ⟨_,q,_,named,held⟩ := completePart complete inside
  have there : h.node? q.place = some h.nodes[place] := by
    rw [node?,named]
    exact Array.getElem?_eq_getElem inside
  cases held with
  | leaf found leaf =>
    cases Option.some.inj (there.symm.trans found)
    cases kind.symm.trans leaf
  | inner found inner heldL heldR =>
    cases Option.some.inj (there.symm.trans found)
    cases kind.symm.trans inner
    obtain ⟨_,foundL⟩ := heldNode heldL
    obtain ⟨_,foundR⟩ := heldNode heldR
    exact ⟨nodeInside foundL,nodeInside foundR⟩

theorem builtChildren (built : (build triangles).result = .ok h) {node : Node} (member : node ∈ h.nodes)
    {left right : UInt32} (kind : node.kind = .inner left right) :
    left < Node.leafFlag ∧ right < Node.leafFlag := by
  obtain ⟨nonempty,few,_⟩ := builtLaid built
  obtain ⟨⟨p,complete⟩,_⟩ := (checkComplete h _).mp (builtAccepted built)
  obtain ⟨insideL,insideR⟩ := completeChildren complete member kind
  have nodes := builtNodes nonempty
  rw [← builtSize built] at nodes
  have fits : h.nodes.size ≤ 2147483647 := Nat.le_trans nodes few
  rw [UInt32.lt_iff_toNat_lt,UInt32.lt_iff_toNat_lt]
  exact ⟨Nat.lt_of_lt_of_le insideL (Nat.le_succ_of_le fits),Nat.lt_of_lt_of_le insideR (Nat.le_succ_of_le fits)⟩

end

theorem buildSizes {work : List Item} (nonempty : work ≠ []) :
    ((Tree.build work).isLeaf = false → ∀ ts ∈ (Tree.build work).leaves, 2 ≤ ts.length) ∧
    (∀ s ∈ (Tree.build work).subtrees, s.isLeaf = false → 4 ≤ s.triangleCount) ∧
    (Tree.build work).nodeCount ≤ max 1 (work.length - 1) ∧
    (Tree.build work).depth ≤ work.length / 2 - 1 ∧
    (∀ bounds depth s, Split.find work bounds depth = some s →
      (s.left work).length < work.length ∧ (s.right work).length < work.length) ∧
    (work.length ≤ 2147483647 → (Tree.build work).nodeCount ≤ 2147483647) ∧
    ∀ triangles, work = Item.ofTriangles triangles →
      (triangles.length < 66 → ∃ h, (build triangles).result = .ok h) ∧
      ∀ h, (build triangles).result = .ok h → h.nodes.size = (Tree.build work).nodeCount ∧
        ∀ node ∈ h.nodes, ∀ left right, node.kind = .inner left right →
          left < Node.leafFlag ∧ right < Node.leafFlag := by
  have nodes := Tree.buildNodes work
  refine ⟨Tree.buildLeaves,fun s => Tree.buildFilled,nodes,Tree.buildDepth work,
    fun _ _ _ => Split.foundShrinks,fun few => by omega,?_⟩
  rintro triangles rfl
  refine ⟨fun few => ?_,fun h built => ⟨builtSize built,fun node member left right => builtChildren built member⟩⟩
  have size : (Item.ofTriangles triangles).length = triangles.length := List.length_mapIdx
  have low := Tree.buildDepth (Item.ofTriangles triangles)
  have shallow : (Tree.build (Item.ofTriangles triangles)).depth < stackCapacity := by
    show _ < 32
    omega
  have some : triangles ≠ [] := by
    rintro rfl
    exact nonempty rfl
  exact ⟨_,(buildLaid some (Nat.le_trans (Nat.le_of_lt few) (by decide))).trans (if_pos shallow)⟩

-- as many nodes as four triangles can have
example : (Tree.build bladeItems).nodeCount = max 1 (bladeItems.length - 1) ∧
    (Tree.build bladeItems).depth = bladeItems.length / 2 - 1 := by
  rw [bladesTree]
  decide +kernel

theorem bladesSizes : bladeItems ≠ [] ∧ (Tree.build bladeItems).isLeaf = false ∧
    (∀ ts ∈ (Tree.build bladeItems).leaves, 2 ≤ ts.length) ∧ (Tree.build bladeItems).nodeCount ≤ 3 ∧
    (Tree.build bladeItems).depth ≤ 1 ∧ ∃ h, (build blades).result = .ok h := by
  have some : bladeItems ≠ [] := by simp [bladeItems,blades,bladePlaces,Item.ofTriangles]
  have size : bladeItems.length = 4 := by simp [bladeItems,blades,bladePlaces,Item.ofTriangles]
  have inner : (Tree.build bladeItems).isLeaf = false := by rw [bladesTree]; rfl
  obtain ⟨leaves,_,nodes,low,_,_,scene⟩ := buildSizes some
  rw [size] at nodes low
  exact ⟨some,inner,leaves inner,nodes,low,(scene blades rfl).1 (by decide)⟩

end Hierarchy
end Sightline
