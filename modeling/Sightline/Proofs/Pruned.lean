import Sightline.Proofs.Bounds
import Sightline.Proofs.Shadow
import Sightline.Proofs.Stray

/-! Why boxes above the leaves can be dropped. A ray that gets through the box of a leaf also gets through every box
around it, as long as boxes are finite and not turned inside out; so all that the upper boxes turn away is turned away
by the leaves as well. A search that asks each leaf for its own box alone would try the same triangles in the same
order. Rays that are not finite may well be turned away above a leaf that they get to, but they find nothing there. -/
namespace Sightline

namespace Box
variable {b c : Box} {bs : List Box}

theorem hullSolid (nonempty : bs ≠ []) (hull : b.Hull bs) (solid : ∀ c ∈ bs, c.Solid) : b.Solid := by
  refine ⟨⟨fun a => ?_,fun a => ?_⟩,fun a => ?_⟩
  · obtain ⟨c,member,same⟩ := hull.bottom a
    exact Scalar.finiteSame same ((solid c member).finite.bottom a)
  · obtain ⟨c,member,same⟩ := hull.top a
    exact Scalar.finiteSame same ((solid c member).finite.top a)
  · obtain ⟨c,member⟩ := List.exists_mem_of_ne_nil bs nonempty
    obtain ⟨below,above⟩ := (containsIff b c).mp (hull.contains c member) a
    exact Scalar.leTrans below (Scalar.leTrans ((solid c member).order a) above)

theorem pointSolid {p : Vec3} (finite : p.Finite) : (ofPoint p).Solid :=
  ⟨⟨finite,finite⟩,fun a => Scalar.leSelf (Scalar.finiteNumber (finite a))⟩

theorem unionSolid (left : b.Solid) (right : c.Solid) : (b.union c).Solid ∧
    (b.union c).contains b = true ∧ (b.union c).contains c = true := by
  have hull := hullUnion (hullSelf left.finite) (hullSelf right.finite)
  refine ⟨hullSolid (List.cons_ne_nil _ _) hull ?_,hull.contains b (by simp),hull.contains c (by simp)⟩
  simpa using ⟨left,right⟩

end Box

theorem Triangle.spannedSolid {t : Triangle} {a b c : Vertex} (spans : t.Spans a b c) : t.bounds.Solid := by
  refine Box.hullSolid (List.cons_ne_nil _ _) (spannedHull spans) ?_
  have corner v (member : v ∈ [a,b,c]) := Box.pointSolid (spans.finite v member)
  exact List.forall_mem_map.mpr corner

namespace Tree

def ends : Tree → List (Box × List UInt32)
  | leaf b ts => [(b,ts)]
  | inner _ l r => l.ends ++ r.ends

def offered (ray : Ray) (t : Tree) : List UInt32 := (t.ends.filter fun (b,_) => b.meets ray).flatMap Prod.snd

def Nested : Tree → Prop
  | leaf b _ => b.Solid
  | inner b l r => b.Solid ∧ (b.contains l.bounds = true ∧ l.Nested) ∧ b.contains r.bounds = true ∧ r.Nested

section
variable {ray : Ray} {t : Tree}

theorem nestedSolid (nested : t.Nested) : t.bounds.Solid := by
  cases t with
  | leaf b ts => exact nested
  | inner b l r => exact nested.1

theorem offeredInner (ray : Ray) (b : Box) (l r : Tree) :
    (inner b l r).offered ray = l.offered ray ++ r.offered ray := by
  simp [offered,ends]

theorem unmetOffered (sane : ray.Finite) (nested : t.Nested) (unmet : t.bounds.meets ray = false) :
    t.offered ray = [] := by
  induction t with
  | leaf b ts =>
    have unmet : b.meets ray = false := unmet
    simp [offered,ends,unmet]
  | inner b l r hl hr =>
    obtain ⟨solid,⟨insideL,nestedL⟩,insideR,nestedR⟩ := nested
    have below {s : Tree} (nestedS : s.Nested) (inside : b.contains s.bounds = true) : s.bounds.meets ray = false :=
      Bool.eq_false_iff.mpr fun meets => Bool.eq_false_iff.mp unmet
        (Box.meetsOuter (nestedSolid nestedS) solid.finite inside sane meets)
    rw [offeredInner,hl nestedL (below nestedL insideL),hr nestedR (below nestedR insideR)]
    rfl

theorem exposedOffered (sane : ray.Finite) (nested : t.Nested) : t.exposed ray = t.offered ray := by
  induction t with
  | leaf b ts => cases meets : b.meets ray <;> simp [exposed,boxed,offered,ends,meets]
  | inner b l r hl hr =>
    rw [exposedInner]
    cases meets : b.meets ray with
    | true =>
      obtain ⟨_,⟨_,nestedL⟩,_,nestedR⟩ := nested
      rw [if_pos rfl,hl nestedL,hr nestedR,offeredInner]
    | false => exact (unmetOffered sane nested meets).symm

/- Both halves of a division hold items, so no box of a build is the empty one. -/
theorem buildAtNested (work : List Item) (depth : Nat) :
    work ≠ [] → (∀ item ∈ work, item.bounds.Solid) → (buildAt work depth).Nested := by
  induction work, depth using buildAtInduction with
  | leaf work depth =>
    intro nonempty solid
    have boxes : ∀ b ∈ work.map Item.bounds, b.Solid := List.forall_mem_map.mpr solid
    have some : work.map Item.bounds ≠ [] := by simpa using nonempty
    exact Box.hullSolid some (Box.hullOfBoxes some fun b member => (boxes b member).finite) boxes
  | inner work depth split found hl hr =>
    intro nonempty solid
    obtain ⟨c,priced⟩ := Split.foundCost found
    obtain ⟨several,others⟩ := Split.costShrinks priced
    have left := hl (List.ne_nil_of_length_pos (by omega)) fun item kept => solid item (List.mem_of_mem_filter kept)
    have right := hr (List.ne_nil_of_length_pos (by omega)) fun item kept => solid item (List.mem_of_mem_filter kept)
    obtain ⟨both,insideL,insideR⟩ := Box.unionSolid (nestedSolid left) (nestedSolid right)
    exact ⟨both,⟨insideL,left⟩,insideR,right⟩

end
end Tree

def Node.children (n : Node) : List UInt32 :=
  match n.kind with
  | .inner left right => [left,right]
  | .leaf _ _ => []

namespace Hierarchy

structure Nested (h : Hierarchy) : Prop where
  solid : ∀ node ∈ h.nodes, node.bounds.Solid
  inside : ∀ node ∈ h.nodes, ∀ place ∈ node.children, ∀ child ∈ h.node? place,
    node.bounds.contains child.bounds = true

section
variable {triangles : Array Triangle} {h : Hierarchy} {p : Plan} {q : Query}

theorem heldNested (nested : h.Nested) (held : h.Holds p) : (p.tree h.order).Nested := by
  induction held with
  | leaf found kind inside => exact nested.solid _ (Array.mem_of_getElem? found)
  | @inner place node l r found kind left right hl hr =>
    have member := Array.mem_of_getElem? found
    have children : node.children = [l.place,r.place] := by rw [Node.children,kind]
    have below {s : Plan} (heldS : h.Holds s) (child : s.place ∈ [l.place,r.place]) :
        node.bounds.contains (s.tree h.order).bounds = true := by
      obtain ⟨other,there⟩ := heldNode heldS
      rw [heldBounds heldS there]
      exact nested.inside node member s.place (children ▸ child) other there
    exact ⟨nested.solid _ member,⟨below left (by simp),hl⟩,below right (by simp),hr⟩

theorem nestedNearest (checked : h.check triangles.size = .ok ()) (complete : h.Complete p)
    (nested : (p.tree h.order).Nested) (q : Query) : ∃ hit, h.closestHit triangles q = .ok hit ∧
      Nearest triangles q ((p.tree h.order).offered q.ray) hit := by
  obtain ⟨hit,answer,nearest⟩ := closestNearest checked complete q
  refine ⟨hit,answer,?_⟩
  by_cases sane : q.ray.Finite
  · rwa [← Tree.exposedOffered sane nested]
  · -- the boxes above may matter here, but nothing that is tried is hit in reach
    have none : hit = none := (nearestNone nearest).mpr fun _ _ _ meets => Query.strayFar sane meets _
    rw [none]
    exact .none fun _ _ _ meets => Query.strayFar sane meets _

theorem prunedShadow (checked : h.check triangles.size = .ok ()) (nested : h.Nested) (q : Query) (light : Vec3) :
    ∃ t blocked, h.tree? = some t ∧ h.occluded triangles q light = .ok blocked ∧ (blocked = true ↔
      Reached triangles q (q.ray.origin.distanceSquared light) (t.offered q.ray)) := by
  obtain ⟨⟨p,complete⟩,_⟩ := (checkComplete h _).mp checked
  obtain ⟨blocked,answer,reached⟩ := occludedReached checked complete q light
  refine ⟨_,blocked,treeComplete complete,answer,reached.trans ?_⟩
  by_cases sane : q.ray.Finite
  · rw [Tree.exposedOffered sane (heldNested nested complete.held)]
  · have never tried : ¬Reached triangles q (q.ray.origin.distanceSquared light) tried := by
      rintro ⟨_,_,hit,meets,near⟩
      exact Query.strayFar sane meets _ near
    exact iff_of_false (never _) (never _)

end

theorem prunedNearest :
    (∀ (inner outer : Box) (r : Ray), inner.Finite → outer.Finite →
      (∀ a, inner.bottom.component a ≤ inner.top.component a) → outer.contains inner = true → r.Finite →
      inner.meets r = true → outer.meets r = true) ∧
    ∀ (h : Hierarchy) (triangles : Array Triangle), h.check triangles.size = .ok () → h.Nested → ∀ q : Query,
      ∃ t hit, h.tree? = some t ∧ h.closestHit triangles q = .ok hit ∧
        Nearest triangles q (t.offered q.ray) hit := by
  refine ⟨fun inner outer r finite finiteOuter order inside sane => ?_,fun h triangles checked nested q => ?_⟩
  · exact Box.meetsOuter ⟨finite,order⟩ finiteOuter inside sane
  · obtain ⟨⟨p,complete⟩,_⟩ := (checkComplete h _).mp checked
    obtain ⟨hit,answer,nearest⟩ := nestedNearest checked complete (heldNested nested complete.held) q
    exact ⟨_,hit,treeComplete complete,answer,nearest⟩

def stacked : Hierarchy :=
  ⟨#[.inner (.ofBox ⟨⟨0,0,0⟩,⟨1,1,1⟩⟩) 1 2,.leaf (.ofBox ⟨⟨0,0,0⟩,⟨1,1,0⟩⟩) 0 1,
    .leaf (.ofBox ⟨⟨0,0,1⟩,⟨1,1,1⟩⟩) 1 1],#[0,1]⟩

theorem stackedNested : stacked.Nested := by
  have bounds : ∀ node ∈ stacked.nodes, ∀ a ∈ Axis.all, Float32.isFinite (node.bounds.bottom.component a) = true ∧
      Float32.isFinite (node.bounds.top.component a) = true ∧
      node.bounds.bottom.component a ≤ node.bounds.top.component a := by decide +kernel
  have around : ∀ node ∈ stacked.nodes, (node.children.all fun place =>
      (stacked.node? place).all fun child => node.bounds.contains child.bounds) = true := by decide +kernel
  refine ⟨fun node member => ⟨⟨?_,?_⟩,?_⟩,fun node member place below child there => ?_⟩
  · exact fun a => (bounds node member a a.memAll).1
  · exact fun a => (bounds node member a a.memAll).2.1
  · exact fun a => (bounds node member a a.memAll).2.2
  · have inside := List.all_eq_true.mp (around node member) place below
    rwa [there] at inside

theorem downwardFinite : downward.ray.Finite := by
  have parts : ∀ a ∈ Axis.all, Float32.isFinite (downward.ray.origin.component a) = true ∧
      Float32.isFinite (downward.ray.direction.component a) = true := by decide +kernel
  exact ⟨fun a => (parts a a.memAll).1,fun a => (parts a a.memAll).2⟩

theorem stackedNearest : stacked.nodes[0].bounds.meets downward.ray = true ∧
    ∃ t hit, stacked.tree? = some t ∧ t.offered downward.ray = [0,1] ∧ hit.triangle = 1 ∧
      stacked.closestHit scatteredPair downward = .ok (some hit) ∧
      Nearest scatteredPair downward (t.offered downward.ray) (some hit) := by
  have root := stackedNested.solid stacked.nodes[0] (by decide +kernel)
  have upper := stackedNested.solid stacked.nodes[2] (by decide +kernel)
  have checked : stacked.check scatteredPair.size = .ok () := by decide +kernel
  have named : (stacked.closestHit scatteredPair downward).toOption.map (·.map Hit.triangle) = some (some 1) := by
    decide +kernel
  have offered : stacked.tree?.map (Tree.offered downward.ray) = some [0,1] := by decide +kernel
  obtain ⟨around,search⟩ := prunedNearest
  refine ⟨around stacked.nodes[2].bounds stacked.nodes[0].bounds _ upper.finite root.finite upper.order
    (by decide +kernel) downwardFinite (by decide +kernel),?_⟩
  obtain ⟨t,hit,spells,answer,nearest⟩ := search stacked scatteredPair checked stackedNested downward
  rw [spells] at offered
  rw [answer] at named
  obtain ⟨found,rfl,triangle⟩ := Option.map_eq_some_iff.mp (Option.some.inj named)
  exact ⟨t,found,spells,Option.some.inj offered,triangle,answer,nearest⟩

theorem builtNearest {triangles : List Triangle} {h : Hierarchy} (made : ∀ t ∈ triangles, ∃ a b c, t.Spans a b c)
    (built : (build triangles).result = .ok h) (q : Query) : ∃ hit, h.closestHit triangles.toArray q = .ok hit ∧
      Nearest triangles.toArray q ((Tree.build (Item.ofTriangles triangles)).offered q.ray) hit := by
  have checked : h.check triangles.toArray.size = .ok () := builtAccepted built
  obtain ⟨nonempty,few,shallow,rfl⟩ := builtLaid built
  obtain ⟨complete,spelled⟩ := treeLaid (builtFits nonempty few) shallow
  have solid : ∀ item ∈ Item.ofTriangles triangles, item.bounds.Solid := by
    intro item member
    obtain ⟨t,there,same⟩ := Item.ofTrianglesMem few member
    obtain ⟨a,b,c,spans⟩ := made t (List.mem_of_getElem? there)
    exact same ▸ Triangle.spannedSolid spans
  have nested := Tree.buildAtNested _ 0 (by simpa [Item.ofTriangles] using nonempty) solid
  have nearest := nestedNearest checked complete (spelled.symm ▸ nested) q
  rwa [spelled] at nearest

end Hierarchy
end Sightline
