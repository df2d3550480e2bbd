import Sightline.Proofs.Layout

/-! A tree that was laid out can be read back. Following children from the first node spells the tree again,
box for box and triangle for triangle, and counting nodes, triangles and levels in the arrays gives the
numbers of the tree. The arrays hold nothing else: the nodes are those of the plan in pre-order, each with the
words of its box, and the list is that of the leaves from left to right. A tree too deep to be searched is
refused with its depth. -/
namespace Sightline.Hierarchy

theorem depthHeld {h : Hierarchy} {p : Plan} (held : h.Holds p) {levels : Nat}
    (enough : p.depth < levels) : h.depthFrom levels p.place = some p.depth := by
  induction held generalizing levels with
  | leaf found kind inside =>
    cases levels with
    | zero => contradiction
    | succ levels => simp [depthFrom,found,kind,Plan.depth]
  | inner found kind left right hl hr =>
    cases levels with
    | zero => contradiction
    | succ levels =>
      simp only [Plan.depth] at enough
      have atL : h.depthFrom levels _ = _ := hl (by omega)
      have atR : h.depthFrom levels _ = _ := hr (by omega)
      simp [depthFrom,found,kind,atL,atR,Plan.depth]

theorem depthComplete {h : Hierarchy} {p : Plan} (complete : h.Complete p) :
    h.depth = .ok p.depth := by
  have enough : p.depth < h.nodes.size + 1 := Nat.lt_succ_of_lt (complete.count ▸ p.depthParts)
  have found := depthHeld complete.held enough
  rw [complete.root] at found
  rw [depth,found]

theorem storedComplete {h : Hierarchy} {p : Plan} (complete : h.Complete p) :
    h.stored? = some (p.stored h.order) := by
  have found := storedHeld complete.held (complete.count ▸ p.depthParts)
  rwa [complete.root] at found

theorem storedReadBack {t : Tree StoredBox} (fits : t.Fits) :
    (t.depth ≤ 31 → ∃ h, ofStored t = .ok h ∧ h.stored? = some t ∧ h.nodes.toList = t.nodesAt 0 0 ∧
      h.order.toList = t.leaves.flatten ∧ h.nodeCount = t.nodeCount ∧
      h.triangleCount = t.triangleCount ∧ h.depth = .ok t.depth) ∧
    (32 ≤ t.depth → ofStored t = .error (.tooDeep t.depth 32)) := by
  rw [ofStoredLaid fits]
  constructor
  · intro small
    have shallow : t.depth < stackCapacity := Nat.lt_succ_of_le small
    obtain ⟨complete,spelled⟩ := laidComplete fits shallow
    have depth := depthComplete complete
    rw [Tree.planDepth] at depth
    refine ⟨t.laid,if_pos shallow,?_,rfl,rfl,?_,t.trianglesLength,depth⟩
    · rw [storedComplete complete,spelled]
    · rw [nodeCount,Tree.laid,List.size_toArray,Tree.nodesLength]
  · intro deep
    exact if_neg (Nat.not_lt.mpr deep)

/- A tree with an empty leaf, and boxes with infinities, a zero below zero, and NaNs of which no two are alike. -/
def lopsided : Tree StoredBox :=
  .inner (.ofBox ⟨.zero,.one⟩) (.inner ⟨⟨0x7fc00000,0x7fc00001,0x80000000⟩,⟨0xffc00000,0x7f800001,0xff800000⟩⟩
    (.leaf ⟨⟨0xffffffff,0,0⟩,⟨0x7fffffff,0,0⟩⟩ [3,1]) (.leaf (.ofBox .empty) [])) (.leaf (.ofBox ⟨.one,.one⟩) [0,3,2])

theorem lopsidedFits : lopsided.Fits where
  countable := by
    intro ts leaf
    have few : ts.length ≤ 3 := by
      revert ts
      decide
    exact Nat.le_trans few (by decide)
  nodes := by decide
  triangles := by decide

theorem lopsidedReadBack : ∃ h, ofStored lopsided = .ok h ∧ h.stored? = some lopsided ∧
    h.order.toList = [3,1,0,3,2] ∧ h.nodeCount = 5 ∧ h.depth = .ok 2 := by
  obtain ⟨h,laid,spelled,_,order,nodes,_,depth⟩ := (storedReadBack lopsidedFits).1 (by decide)
  exact ⟨h,laid,spelled,order,nodes,depth⟩

end Sightline.Hierarchy
