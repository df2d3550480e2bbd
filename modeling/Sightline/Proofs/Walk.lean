import Sightline.Hierarchy.Search
import Sightline.Proofs.Check

/-! What a search amounts to. The nodes that wait are the tops of plans, and a walk over them tries the
triangles of the leaves that the ray can get to, from left to right, as one long leaf would. A plan may
only wait where the plans below it on the stack leave room for its depth; then its left child has room
on top of its right child, so the stack never overflows. In a hierarchy that passed its check every
triangle can be looked up, no node is visited twice, and a search always has an answer. -/
namespace Sightline

def Tree.visible (ray : Ray) : Tree → List UInt32
  | .leaf b ts => if b.meets ray then ts else []
  | .inner b l r => if b.meets ray then l.visible ray ++ r.visible ray else []

theorem Tree.visibleTriangles (ray : Ray) (t : Tree) : ∀ i ∈ t.visible ray, i ∈ t.triangles := by
  induction t with
  | leaf b ts =>
    intro i member
    unfold visible at member
    split at member
    · simpa [triangles,leaves] using member
    · contradiction
  | inner b l r hl hr =>
    intro i member
    rw [trianglesInner]
    unfold visible at member
    split at member
    · rcases List.mem_append.mp member with member | member
      · exact List.mem_append_left _ (hl i member)
      · exact List.mem_append_right _ (hr i member)
    · contradiction

theorem Plan.treeOrder (order : Array UInt32) (p : Plan) :
    ∀ i ∈ (p.tree order).triangles, i ∈ order := by
  induction p with
  | leaf place b start count =>
    intro i member
    have member : i ∈ (order.extract start.toNat (start.toNat + count.toNat)).toList := by
      simpa [Tree.triangles,Tree.leaves,treeLeaf] using member
    rw [Array.toList_extract] at member
    exact Array.mem_def.mpr (List.mem_of_mem_drop (List.mem_of_mem_take member))
  | inner place b l r hl hr =>
    intro i member
    rw [treeInner,Tree.trianglesInner] at member
    rcases List.mem_append.mp member with member | member
    · exact hl i member
    · exact hr i member

namespace Hierarchy
section
variable {β : Type} {triangles : Array Triangle} {q : Query} {onHit : β → Hit → ForInStep β}

theorem scanAppend (found : β) (xs ys : List UInt32) :
    scan triangles q onHit found (xs ++ ys) =
      match scan triangles q onHit found xs with
      | .error fault => .error fault
      | .ok (.done found) => .ok (.done found)
      | .ok (.yield found) => scan triangles q onHit found ys := by
  induction xs generalizing found with
  | nil => rfl
  | cons index rest ih =>
    simp only [List.cons_append,scan]
    cases q.attempt triangles index with
    | error fault => rfl
    | ok tried =>
      cases tried with
      | none => exact ih found
      | some hit =>
        dsimp only
        cases onHit found hit with
        | done found => rfl
        | yield found => exact ih found

/- On the stack below each plan that waits lie no more than its depth leaves room for. -/
def Room : List Plan → Prop
  | [] => True
  | p :: ps => p.depth + ps.length < stackCapacity ∧ Room ps

theorem roomChildren {place : UInt32} {b : StoredBox} {l r : Plan} {ps : List Plan}
    (room : Room (.inner place b l r :: ps)) :
    ps.length + 2 ≤ stackCapacity ∧ Room (l :: r :: ps) := by
  obtain ⟨fits,rest⟩ := room
  simp only [Plan.depth] at fits
  refine ⟨by omega,?_,?_,rest⟩
  · simp only [List.length_cons]
    omega
  · omega

theorem walkHeld {h : Hierarchy} {ps : List Plan} (held : ∀ p ∈ ps, h.Holds p) (room : Room ps)
    {steps : Nat} (enough : (ps.flatMap Plan.parts).length ≤ steps) (found : β) :
    h.walk triangles q onHit steps (ps.map Plan.place) found =
      (scan triangles q onHit found
        (ps.flatMap fun p => (p.tree h.order).visible q.ray)).map ForInStep.value := by
  induction steps generalizing ps found with
  | zero =>
    cases ps with
    | nil => rfl
    | cons p ps =>
      have some := p.depthParts
      rw [List.flatMap_cons,List.length_append] at enough
      omega
  | succ steps ih =>
    cases ps with
    | nil => rfl
    | cons p ps =>
      obtain ⟨top,rest⟩ := List.forall_mem_cons.mp held
      rw [List.flatMap_cons,List.length_append] at enough
      rw [List.flatMap_cons,scanAppend]
      have missed (found : β) := ih rest room.2 (by have := p.depthParts; omega) found
      cases top with
      | @leaf place node start count there kind inside =>
        simp only [List.map_cons,Plan.placeLeaf,walk,there,Node.bounds,Plan.treeLeaf,Tree.visible]
        by_cases meets : node.stored.toBox.meets q.ray = true
        · simp only [meets,kind,if_true,rangeInside inside]
          cases scan triangles q onHit found _ with
          | error fault => rfl
          | ok step =>
            cases step with
            | done found => rfl
            | yield found => exact missed found
        · simp only [meets]
          exact missed found
      | @inner place node l r there kind left right =>
        simp only [List.map_cons,Plan.placeInner,walk,there,Node.bounds,Plan.treeInner,Tree.visible]
        by_cases meets : node.stored.toBox.meets q.ray = true
        · obtain ⟨fits,children⟩ := roomChildren room
          simp only [meets,kind,if_true,List.length_map,fits]
          -- the children wait in the place of the node, the left one on top
          rw [← scanAppend,List.append_assoc]
          refine @ih (l :: r :: ps) ?_ children ?_ found
          · exact List.forall_mem_cons.mpr ⟨left,List.forall_mem_cons.mpr ⟨right,rest⟩⟩
          · simp only [List.flatMap_cons,List.length_append]
            simp only [Plan.parts,List.length_cons,List.length_append] at enough
            omega
        · simp only [meets]
          exact missed found

theorem searchComplete {h : Hierarchy} {p : Plan} (complete : h.Complete p) (found : β) :
    h.search triangles q onHit found =
      (scan triangles q onHit found ((p.tree h.order).visible q.ray)).map ForInStep.value := by
  have enough : h.nodes.size ≤ h.walkLimit :=
    Nat.le_trans (by omega) (Nat.le_self_pow (by decide) (2 * h.nodes.size + 2))
  have walked := @walkHeld β triangles q onHit h [p] (by simpa using complete.held)
    ⟨complete.shallow,trivial⟩ h.walkLimit (by simpa [complete.count] using enough) found
  simpa [search,complete.root] using walked

theorem attemptInside {index : UInt32} (inside : index.toNat < triangles.size) :
    ∃ tried, q.attempt triangles index = .ok tried := by
  unfold Query.attempt
  split
  · exact ⟨_,rfl⟩
  · rw [Fault.lookInside _ inside]
    exact ⟨_,rfl⟩

theorem scanAnswers {tried : List UInt32} (inside : ∀ i ∈ tried, i.toNat < triangles.size)
    (found : β) : ∃ step, scan triangles q onHit found tried = .ok step := by
  induction tried generalizing found with
  | nil => exact ⟨_,rfl⟩
  | cons index rest ih =>
    obtain ⟨here,later⟩ := List.forall_mem_cons.mp inside
    obtain ⟨hit,tried⟩ := @attemptInside triangles q index here
    simp only [scan,tried]
    cases hit with
    | none => exact ih later found
    | some hit =>
      dsimp only
      cases onHit found hit with
      | done found => exact ⟨_,rfl⟩
      | yield found => exact ih later found

theorem orderInside {h : Hierarchy} {count : Nat} (checked : h.check count = .ok ()) :
    ∀ i ∈ h.order, i.toNat < count := by
  intro i member
  obtain ⟨_,listed⟩ := (checkComplete h count).mp checked
  have named := List.mem_map_of_mem (f := UInt32.toNat) (Array.mem_def.mp member)
  exact List.mem_range.mp (listed.mem_iff.mp named)

theorem visibleInside {h : Hierarchy} {count : Nat} (checked : h.check count = .ok ())
    (p : Plan) (ray : Ray) : ∀ i ∈ (p.tree h.order).visible ray, i.toNat < count :=
  fun i member => orderInside checked i (p.treeOrder h.order i (Tree.visibleTriangles ray _ i member))

theorem searchAnswers {h : Hierarchy} (checked : h.check triangles.size = .ok ()) (found : β) :
    ∃ answer, h.search triangles q onHit found = .ok answer := by
  obtain ⟨⟨p,complete⟩,_⟩ := (checkComplete h _).mp checked
  obtain ⟨step,scanned⟩ := scanAnswers (visibleInside checked p q.ray) found
  rw [searchComplete complete,scanned]
  exact ⟨_,rfl⟩

end

theorem checkedAnswers {h : Hierarchy} {triangles : Array Triangle}
    (checked : h.check triangles.size = .ok ()) (q : Query) :
    (∃ hit, h.closestHit triangles q = .ok hit) ∧
      (∀ light, ∃ blocked, h.occluded triangles q light = .ok blocked) ∧
      ∀ i ∈ h.order, i.toNat < triangles.size :=
  ⟨searchAnswers checked _,fun _ => searchAnswers checked _,orderInside checked⟩

def scatteredPair : Array Triangle :=
  #[.ofPoints ⟨0,0,0⟩ ⟨1,0,0⟩ ⟨0,1,0⟩ ⟨0,1,2⟩ ⟨1,1,1⟩ true,
    .ofPoints ⟨0,0,1⟩ ⟨1,0,1⟩ ⟨0,1,1⟩ ⟨3,4,5⟩ ⟨1,1,1⟩ true]

def scattered : Hierarchy :=
  let box := StoredBox.ofBox ⟨⟨0,0,0⟩,⟨1,1,1⟩⟩
  ⟨#[.inner box 2 1,.leaf box 1 1,.inner box 4 3,.leaf box 0 1,.leaf box 2 0],#[1,0]⟩

def downward : Query := ⟨⟨⟨0.25,0.25,3⟩,⟨0,0,-1⟩⟩,none,.backfaces⟩

theorem scatteredChecked : scattered.check scatteredPair.size = .ok () := by decide +kernel

theorem scatteredAnswers : (∃ hit, scattered.closestHit scatteredPair downward = .ok hit) ∧
    (∀ light, ∃ blocked, scattered.occluded scatteredPair downward light = .ok blocked) ∧
    ∀ i ∈ scattered.order, i.toNat < scatteredPair.size :=
  checkedAnswers scatteredChecked downward

end Hierarchy
end Sightline
