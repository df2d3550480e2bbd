import Sightline.Proofs.Build
import Sightline.Proofs.Hull

/-! How tight the boxes of a build are. A leaf has the least box around the boxes of its triangles, and the
union of two least boxes is the least box around both, so every subtree that a build can produce has the
least box around what it holds, however its planes were chosen. Laid out, each node keeps the box of the
subtree that is read from it. Finite corners are all that is needed: a corner past the greatest number would
not move the bounds of the empty box. -/
namespace Sightline

namespace Tree

def subtrees : Tree → List Tree
  | leaf b ts => [leaf b ts]
  | inner b l r => inner b l r :: (l.subtrees ++ r.subtrees)

theorem selfSubtree (t : Tree) : t ∈ t.subtrees := by cases t <;> exact List.mem_cons_self

def Tight (work : List Item) (t : Tree) : Prop :=
  ∃ items : List Item, (∀ item ∈ items, item ∈ work) ∧ t.triangles = items.map Item.triangle ∧
    t.bounds.Hull (items.map Item.bounds)

theorem tightMore {work more : List Item} {t : Tree} (tight : t.Tight work)
    (kept : ∀ item ∈ work, item ∈ more) : t.Tight more := by
  obtain ⟨items,among,rest⟩ := tight
  exact ⟨items,fun item member => kept item (among item member),rest⟩

theorem tightLeaf {work : List Item} (nonempty : work ≠ [])
    (finite : ∀ item ∈ work, item.bounds.Finite) : (ofItems work).Tight work := by
  refine ⟨work,fun _ => id,by simp [ofItems,triangles,leaves],?_⟩
  exact Box.hullOfBoxes (by simpa using nonempty) (List.forall_mem_map.mpr finite)

theorem tightJoin {work : List Item} {l r : Tree} (left : l.Tight work) (right : r.Tight work) :
    (join l r).Tight work := by
  obtain ⟨itemsL,amongL,heldL,hullL⟩ := left
  obtain ⟨itemsR,amongR,heldR,hullR⟩ := right
  refine ⟨itemsL ++ itemsR,List.forall_mem_append.mpr ⟨amongL,amongR⟩,?_,?_⟩
  · rw [join,trianglesInner,heldL,heldR,List.map_append]
  · rw [List.map_append]
    exact Box.hullUnion hullL hullR

theorem buildAtTight (work : List Item) (depth : Nat) :
    work ≠ [] → (∀ item ∈ work, item.bounds.Finite) → ∀ s ∈ (buildAt work depth).subtrees, s.Tight work := by
  induction work, depth using buildAtInduction with
  | leaf work depth =>
    intro nonempty finite s member
    cases List.mem_singleton.mp member
    exact tightLeaf nonempty finite
  | inner work depth split found hl hr =>
    intro nonempty finite s member
    obtain ⟨c,priced⟩ := Split.foundCost found
    obtain ⟨several,others⟩ := Split.costShrinks priced
    have keptL : ∀ item ∈ split.left work, item ∈ work := fun item => List.mem_of_mem_filter
    have keptR : ∀ item ∈ split.right work, item ∈ work := fun item => List.mem_of_mem_filter
    have tightL s member := tightMore (hl (List.ne_nil_of_length_pos (by omega))
      (fun item inside => finite item (keptL item inside)) s member) keptL
    have tightR s member := tightMore (hr (List.ne_nil_of_length_pos (by omega))
      (fun item inside => finite item (keptR item inside)) s member) keptR
    rcases List.mem_cons.mp member with rfl | member
    · exact tightJoin (tightL _ (selfSubtree _)) (tightR _ (selfSubtree _))
    · rcases List.mem_append.mp member with member | member
      · exact tightL s member
      · exact tightR s member

end Tree

theorem Plan.treeSubtrees (order : Array UInt32) (p : Plan) :
    (p.tree order).subtrees = p.parts.map (Plan.tree order) := by
  induction p with
  | leaf place b start count => rfl
  | inner place b l r hl hr => simp only [treeInner,Tree.subtrees,parts,List.map_cons,List.map_append,hl,hr]

namespace Item

theorem ofTrianglesMem {triangles : List Triangle} (few : triangles.length ≤ Node.leafLimit) {item : Item}
    (member : item ∈ ofTriangles triangles) :
    ∃ t, triangles[item.triangle.toNat]? = some t ∧ t.bounds = item.bounds := by
  obtain ⟨i,inside,rfl⟩ := List.mem_mapIdx.mp member
  have word : i.toUInt32.toNat = i := wordKept (Nat.lt_trans (Nat.lt_of_lt_of_le inside few) (by decide))
  refine ⟨triangles[i],?_,rfl⟩
  rw [ofTriangle,word]
  exact List.getElem?_eq_getElem inside

theorem triangleBounds {triangles : List Triangle} (few : triangles.length ≤ Node.leafLimit)
    {items : List Item} (among : ∀ item ∈ items, item ∈ ofTriangles triangles) :
    ∃ ts : List Triangle, (items.map triangle).map (fun i => triangles[i.toNat]?) = ts.map some ∧
      items.map bounds = ts.map Triangle.bounds := by
  induction items with
  | nil => exact ⟨[],rfl,rfl⟩
  | cons item rest ih =>
    obtain ⟨here,later⟩ := List.forall_mem_cons.mp among
    obtain ⟨t,there,same⟩ := ofTrianglesMem few here
    obtain ⟨ts,found,bounded⟩ := ih later
    refine ⟨t :: ts,?_,?_⟩
    · rw [List.map_cons,List.map_cons,there,found,List.map_cons]
    · rw [List.map_cons,List.map_cons,same,bounded]

end Item

namespace Hierarchy

theorem heldBounds {h : Hierarchy} {q : Plan} (held : h.Holds q) {node : Node}
    (found : h.node? q.place = some node) : (q.tree h.order).bounds = node.bounds := by
  cases held with
  | leaf there => cases Option.some.inj (found.symm.trans there); rfl
  | inner there => cases Option.some.inj (found.symm.trans there); rfl

section
variable {triangles : List Triangle} {h : Hierarchy}

theorem builtLaid (built : (build triangles).result = .ok h) : triangles ≠ [] ∧
    triangles.length ≤ Node.leafLimit ∧ (Tree.build (Item.ofTriangles triangles)).depth < stackCapacity ∧
      h = (Tree.build (Item.ofTriangles triangles)).stored.laid := by
  by_cases nonempty : triangles = []
  · rw [nonempty] at built
    contradiction
  by_cases few : triangles.length ≤ Node.leafLimit
  · rw [buildLaid nonempty few] at built
    split at built
    · rename_i shallow
      exact ⟨nonempty,few,shallow,(Except.ok.inj built).symm⟩
    · contradiction
  · rw [build,if_neg (by simpa using nonempty),if_pos (Nat.not_le.mp few)] at built
    contradiction

theorem builtAccepted (built : (build triangles).result = .ok h) : h.check triangles.length = .ok () := by
  obtain ⟨nonempty,few,shallow,same⟩ := builtLaid built
  rw [same]
  exact builtChecked nonempty few shallow

theorem builtSubtree (built : (build triangles).result = .ok h) {place : Nat}
    (inside : place < h.nodes.size) : ∃ s ∈ (Tree.build (Item.ofTriangles triangles)).subtrees,
      h.treeFrom h.nodes.size place.toUInt32 = some s ∧ s.bounds = h.nodes[place].bounds := by
  obtain ⟨nonempty,few,shallow,rfl⟩ := builtLaid built
  obtain ⟨complete,spelled⟩ := treeLaid (builtFits nonempty few) shallow
  obtain ⟨path,q,found,named,held⟩ := completePart complete inside
  have part := Plan.memParts.mpr ⟨path,found⟩
  have there : place.toUInt32 = q.place := by rw [← named,Nat.toUInt32_eq,UInt32.ofNat_toNat]
  have below := List.mem_map_of_mem (f := Plan.tree (Tree.build (Item.ofTriangles triangles)).stored.laid.order) part
  rw [← Plan.treeSubtrees,spelled] at below
  refine ⟨_,below,there ▸ partComplete complete part,heldBounds held ?_⟩
  rw [node?,named]
  exact Array.getElem?_eq_getElem inside

theorem builtHull (finite : ∀ t ∈ triangles, t.bounds.Finite) (built : (build triangles).result = .ok h)
    {place : Nat} (inside : place < h.nodes.size) : ∃ (s : Tree) (ts : List Triangle),
      h.treeFrom h.nodes.size place.toUInt32 = some s ∧
      s.triangles.map (fun i => triangles[i.toNat]?) = ts.map some ∧
      h.nodes[place].bounds.Hull (ts.map Triangle.bounds) := by
  obtain ⟨nonempty,few,_⟩ := builtLaid built
  obtain ⟨s,member,read,kept⟩ := builtSubtree built inside
  have finite : ∀ item ∈ Item.ofTriangles triangles, item.bounds.Finite := by
    intro item inItems
    obtain ⟨t,there,same⟩ := Item.ofTrianglesMem few inItems
    exact same ▸ finite t (List.mem_of_getElem? there)
  have some : Item.ofTriangles triangles ≠ [] := by simpa [Item.ofTriangles] using nonempty
  obtain ⟨items,among,holds,hull⟩ := Tree.buildAtTight _ 0 some finite s member
  obtain ⟨ts,found,bounded⟩ := Item.triangleBounds few among
  rw [kept,bounded] at hull
  exact ⟨s,ts,read,by rw [holds,found],hull⟩

theorem builtTight (made : ∀ t ∈ triangles, ∃ a b c, t.Spans a b c)
    (built : (build triangles).result = .ok h) :
    ∀ place, (inside : place < h.nodes.size) → ∃ (s : Tree) (ts : List Triangle),
      h.treeFrom h.nodes.size place.toUInt32 = some s ∧
      s.triangles.map (fun i => triangles[i.toNat]?) = ts.map some ∧
      h.nodes[place].bounds.Hull (ts.map Triangle.bounds) ∧
      (∀ d : Box, (∀ t ∈ ts, d.contains t.bounds = true) → d.contains h.nodes[place].bounds = true) ∧
      ∀ t ∈ ts, ∀ a b c, t.Spans a b c → ∀ v ∈ [a,b,c],
        t.bounds.contains (.ofPoint v.position) = true := by
  intro place inside
  have finite : ∀ t ∈ triangles, t.bounds.Finite := by
    intro t member
    obtain ⟨a,b,c,spans⟩ := made t member
    exact Triangle.spannedFinite spans
  obtain ⟨s,ts,read,found,hull⟩ := builtHull finite built inside
  refine ⟨s,ts,read,found,hull,?_,?_⟩
  · intro d around
    exact Box.hullLeast hull (List.forall_mem_map.mpr around)
  · intro t _ a b c spans v corner
    refine (Triangle.spannedHull spans).contains _ ?_
    exact List.mem_map_of_mem (f := fun v : Vertex => Box.ofPoint v.position) corner

end

/- Two pairs of blades, mixed up, so far out that the grid between them ends where its step is lost. -/
def bladePlaces : List Scalar := [16777212,16777978,16777213,16777980]

def bladeCorners (x : Scalar) : Array Vertex :=
  #[⟨⟨x,0,0⟩,.unitZ⟩,⟨⟨x + 1,0,0⟩,.unitZ⟩,⟨⟨x,5e-5,0⟩,.unitZ⟩]

def blade (x : Scalar) : Triangle :=
  .ofPoints ⟨x,0,0⟩ ⟨x + 1,0,0⟩ ⟨x,5e-5,0⟩ ⟨0,1,2⟩ ⟨1,1,1⟩ false

def blades : List Triangle := bladePlaces.map blade

def bladeItems : List Item := Item.ofTriangles blades

theorem bladeMade (x : Scalar) :
    Triangle.ofFace (bladeCorners x) ⟨0,1,2⟩ ⟨1,1,1⟩ false = .ok (blade x) :=
  @Triangle.ofFaceOk (bladeCorners x) ⟨0,1,2⟩ (Nat.zero_lt_succ 2) (Nat.one_lt_succ_succ 1)
    (Nat.lt_succ_self 2) ⟨1,1,1⟩ false

theorem bladesSpanned : ∀ t ∈ blades, ∃ a b c, t.Spans a b c := by
  have numbers : ∀ x ∈ bladePlaces, ∀ v ∈ bladeCorners x, ∀ a ∈ Axis.all,
      Float32.isFinite (v.position.component a) = true := by
    decide +kernel
  refine List.forall_mem_map.mpr fun x place => Triangle.madeSpans (bladeMade x) ?_
  exact fun v member a => numbers x place v member a a.memAll

theorem bladesBox : Item.boundsOf bladeItems = ⟨⟨16777212,0,0⟩,⟨16777980,5e-5,0⟩⟩ := by decide +kernel

theorem bladesGrid : Split.candidates (Item.boundsOf bladeItems) 0 =
    [⟨.x,16777213⟩,⟨.x,16777214⟩,⟨.x,16777215⟩,⟨.x,16777216⟩] := by
  have along : Split.grid 16777212 16777980 0 = [16777213,16777214,16777215,16777216] := by
    rw [Split.grid,if_neg (by decide +kernel),Split.samplesMore (by decide +kernel) (by decide +kernel),
      Split.samplesMore (by decide +kernel) (by decide +kernel),
      Split.samplesMore (by decide +kernel) (by decide +kernel),
      Split.samplesLost (by decide +kernel) (by decide +kernel)]
    decide +kernel
  have across : Split.grid 0 5e-5 0 = [] := if_pos (by decide +kernel)
  have flat : Split.grid 0 0 0 = [] := if_pos (by decide +kernel)
  rw [bladesBox]
  simp [Split.candidates,Axis.all,Vec3.component,along,across,flat]

theorem bladesSplit : Split.find bladeItems (Item.boundsOf bladeItems) 0 = some ⟨.x,16777215⟩ := by
  rw [Split.find,bladesGrid]
  decide +kernel

theorem bladesTree : Tree.build bladeItems =
    .join (.ofItems ((Split.mk .x 16777215).left bladeItems))
      (.ofItems ((Split.mk .x 16777215).right bladeItems)) := by
  rw [Tree.build,Tree.buildAtInner (by decide +kernel) bladesSplit]
  rw [Tree.buildAtLeaf (.inl (by decide +kernel)),Tree.buildAtLeaf (.inl (by decide +kernel))]

theorem bladesTight : ∃ h, (build blades).result = .ok h ∧ h.nodes.size = 3 ∧
    ∀ place, (inside : place < h.nodes.size) → ∃ (s : Tree) (ts : List Triangle),
      h.treeFrom h.nodes.size place.toUInt32 = some s ∧
      s.triangles.map (fun i => blades[i.toNat]?) = ts.map some ∧
      h.nodes[place].bounds.Hull (ts.map Triangle.bounds) := by
  have shallow : (Tree.build bladeItems).depth < stackCapacity := by
    rw [bladesTree]
    decide
  have built := (buildLaid (by simp [blades,bladePlaces]) (by decide)).trans (if_pos shallow)
  refine ⟨_,built,?_,fun place inside => ?_⟩
  · rw [laidNodes,← bladeItems,bladesTree]
    rfl
  · obtain ⟨s,ts,read,found,hull,_⟩ := builtTight bladesSpanned built place inside
    exact ⟨s,ts,read,found,hull⟩

end Hierarchy
end Sightline
