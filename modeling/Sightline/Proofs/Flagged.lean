import Sightline.Proofs.RoundTrip
import Mathlib.Algebra.Group.Nat.Defs

/-! What becomes of a tree with so many nodes that their places reach the bit that marks a leaf. Nodes are only counted
against the whole word, so a left child may lie at a place with that bit set, and then its parent reads as a leaf. The
count at the end finds such a parent by the triangles it seems to hold. It cannot find the one whose left child lies
at the first place with that bit, because that parent seems to hold none: such a tree is laid out without complaint
and everything below that node is lost. -/
namespace Sightline.Hierarchy

section
variable {t : Tree StoredBox} {h : Hierarchy}

theorem placeCountable {room depth : Nat} {d : Draft room} {out : UInt32 × Draft room} (placed : d.place depth t = .ok out) :
    t.Countable := by
  induction t generalizing d depth out with
  | leaf b ts =>
    refine Tree.countableLeaf.mpr (Nat.not_lt.mp fun many => ?_)
    simp only [Draft.place,bind,Except.bind] at placed
    split at placed
    · contradiction
    · rw [if_pos many] at placed
      contradiction
  | inner b l r hl hr =>
    simp only [Draft.place,bind,Except.bind] at placed
    split at placed
    · contradiction
    split at placed
    · contradiction
    rename_i left
    split at placed
    · contradiction
    rename_i right
    exact Tree.countableInner.mpr ⟨hl left,hr right⟩

structure Guarded (t : Tree StoredBox) : Prop where
  countable : t.Countable
  nodes : t.nodeCount ≤ wordLimit
  triangles : t.triangleCount ≤ wordLimit
  shallow : t.depth ≤ 31

theorem ofStoredWords (laid : ofStored t = .ok h) : t.nodeCount ≤ wordLimit ∧ t.triangleCount ≤ wordLimit := by
  by_cases many : t.triangleCount > wordLimit ∨ t.nodeCount > wordLimit
  · simp only [ofStored,many,if_true,bind,Except.bind,throw,throwThe,MonadExceptOf.throw] at laid
    contradiction
  · omega

theorem ofStoredCountable (laid : ofStored t = .ok h) : t.Countable := by
  obtain ⟨nodes,triangles⟩ := ofStoredWords laid
  have few : ¬(t.triangleCount > wordLimit ∨ t.nodeCount > wordLimit) := by omega
  simp only [ofStored,few,if_false,bind,Except.bind,pure,Except.pure] at laid
  split at laid
  · contradiction
  rename_i placed
  exact placeCountable placed

theorem ofStoredGuarded : ofStored t = .ok h ↔ Guarded t ∧ t.stray 0 = 0 ∧ h = t.laid := by
  constructor
  · intro laid
    obtain ⟨nodes,triangles⟩ := ofStoredWords laid
    have countable := ofStoredCountable laid
    rw [ofStoredCounted countable nodes triangles] at laid
    split at laid
    · rename_i none
      split at laid
      · rename_i shallow
        exact ⟨⟨countable,nodes,triangles,Nat.le_of_lt_succ shallow⟩,none,(Except.ok.inj laid).symm⟩
      · contradiction
    · contradiction
  · rintro ⟨guarded,none,rfl⟩
    have shallow : t.depth < stackCapacity := Nat.lt_succ_of_le guarded.shallow
    rw [ofStoredCounted guarded.countable guarded.nodes guarded.triangles,if_pos none,if_pos shallow]

/- Nothing seems to be held as long as no inner node lies past the last place before the bit. -/
theorem strayFree {place : Nat} (start : Nat) (room : place + t.nodeCount ≤ 4294967296) : t.stray place = 0 ↔
    ∀ p b l r, Plan.inner p b l r ∈ (t.planAt place start).parts → p.toNat ≤ 2147483647 := by
  induction t generalizing place start with
  | leaf b ts => simp [Tree.stray,Tree.planAt,Plan.parts]
  | inner b l r hl hr =>
    simp only [Tree.nodeCount] at room
    have word := wordKept (show place < 4294967296 by omega)
    have left := @hl (place + 1) start (by omega)
    have right := @hr (place + 1 + l.nodeCount) (start + l.triangleCount) (by omega)
    rw [Tree.stray,Nat.add_eq_zero_iff,Nat.add_eq_zero_iff,left,right,Tree.planAt,Plan.parts]
    simp only [List.mem_cons,List.mem_append]
    constructor
    · rintro ⟨own,inL,inR⟩ p c x y (same | member | member)
      · cases same
        omega
      · exact inL p c x y member
      · exact inR p c x y member
    · intro all
      refine ⟨?_,fun p c x y member => all p c x y (.inr (.inl member)),
        fun p c x y member => all p c x y (.inr (.inr member))⟩
      have own := all _ _ _ _ (.inl rfl)
      omega

theorem laidNode (room : t.nodeCount ≤ 4294967296) {q : Plan} (member : q ∈ (t.planAt 0 0).parts) :
    t.laid.node? q.place = some q.node := by
  obtain ⟨i,inside,rfl⟩ := List.mem_iff_getElem.mp member
  have places := congrArg (·[i]?) (t.planPlaces 0 0 (by omega))
  have counted : i < t.nodeCount := by
    have size := Tree.nodesLength 0 0 t
    rw [Tree.nodesAt,List.length_map] at size
    exact size ▸ inside
  simp only [Plan.places,List.getElem?_map,List.getElem?_eq_getElem inside,List.getElem?_range',counted,
    Option.map_some,Option.some.injEq,Nat.zero_add,Nat.one_mul] at places
  rw [node?,places]
  simp [Tree.laid,Tree.nodesAt,inside]

theorem innerNext {place start : Nat} (room : place + t.nodeCount ≤ 4294967296) {p : UInt32} {b : StoredBox} {l r : Plan}
    (member : Plan.inner p b l r ∈ (t.planAt place start).parts) : l.place.toNat = p.toNat + 1 := by
  induction t generalizing place start with
  | leaf b ts => simp [Tree.planAt,Plan.parts] at member
  | inner c x y hl hr =>
    simp only [Tree.nodeCount] at room
    have someX := x.nodeCountPositive
    rw [Tree.planAt,Plan.parts,List.mem_cons,List.mem_append] at member
    rcases member with same | member | member
    · cases same
      rw [Tree.planPlace,wordKept (by omega),wordKept (by omega)]
    · exact hl (by omega) member
    · exact hr (by omega) member

theorem innerKinds : (ofStored t = .ok h ↔ Guarded t ∧ h = t.laid ∧
      ∀ p b l r, Plan.inner p b l r ∈ (t.planAt 0 0).parts → p.toNat ≤ 2147483647) ∧
    (ofStored t = .ok h → ∀ p b l r, Plan.inner p b l r ∈ (t.planAt 0 0).parts →
      ∃ node, h.node? p = some node ∧ node.stored = b ∧ l.place.toNat = p.toNat + 1 ∧
        (p.toNat ≠ 2147483647 → node.kind = .inner l.place r.place) ∧
        (p.toNat = 2147483647 → node.kind = .leaf r.place 0)) := by
  have accepted : ofStored t = .ok h ↔ Guarded t ∧ h = t.laid ∧
      ∀ p b l r, Plan.inner p b l r ∈ (t.planAt 0 0).parts → p.toNat ≤ 2147483647 := by
    rw [ofStoredGuarded]
    constructor
    · rintro ⟨guarded,none,same⟩
      exact ⟨guarded,same,(strayFree 0 (by rw [Nat.zero_add]; exact Nat.le_succ_of_le guarded.nodes)).mp none⟩
    · rintro ⟨guarded,same,low⟩
      exact ⟨guarded,(strayFree 0 (by rw [Nat.zero_add]; exact Nat.le_succ_of_le guarded.nodes)).mpr low,same⟩
  refine ⟨accepted,fun laid p b l r member => ?_⟩
  obtain ⟨guarded,rfl,low⟩ := accepted.mp laid
  have room : t.nodeCount ≤ 4294967296 := Nat.le_succ_of_le guarded.nodes
  have next := innerNext (by rwa [Nat.zero_add]) member
  have below := low p b l r member
  refine ⟨_,laidNode room member,rfl,next,fun other => ?_,fun last => ?_⟩
  · refine Node.kindInner b r.place ?_
    rw [UInt32.lt_iff_toNat_lt,next]
    show _ < 2147483648
    omega
  · have flag : l.place = Node.leafFlag := by
      rw [← UInt32.toNat_inj,next,last]
      rfl
    rw [Plan.node,flag,Node.kindFlagged b _ (UInt32.le_refl _),UInt32.sub_self]

end

def cube : StoredBox := .ofBox ⟨.zero,.one⟩

def sprout : Tree StoredBox := .leaf cube [0]

def perfect : Nat → Tree StoredBox
  | 0 => sprout
  | n + 1 => .inner cube (perfect n) (perfect n)

def clipped : Nat → Tree StoredBox
  | 0 => sprout
  | n + 1 => .inner cube (perfect (n + 1)) (clipped n)

/- Three inner nodes in a row come last. After so many nodes on the left, the children of the last one have the first
two places with the bit. -/
def extended (x : Tree StoredBox) : Tree StoredBox :=
  .inner cube x (.inner cube (.inner cube sprout sprout) sprout)

def overgrown : Tree StoredBox := extended (clipped 29)

theorem perfectSize (n : Nat) : (perfect n).nodeCount + 1 = 2 ^ (n + 1) ∧ (perfect n).triangleCount = 2 ^ n ∧
    (perfect n).depth = n := by
  induction n with
  | zero => decide
  | succ n ih =>
    obtain ⟨nodes,triangles,depth⟩ := ih
    rw [perfect,Tree.nodeCount,Tree.triangleCount,Tree.depth,triangles,depth,Nat.pow_succ 2 (n + 1),Nat.pow_succ 2 n]
    omega

theorem clippedSize (n : Nat) : (clipped n).nodeCount + 3 = 2 ^ (n + 2) ∧ (clipped n).triangleCount + 1 = 2 ^ (n + 1) ∧
    (clipped n).depth ≤ n + 1 := by
  induction n with
  | zero => decide
  | succ n ih =>
    obtain ⟨nodes,triangles,depth⟩ := ih
    obtain ⟨nodesL,trianglesL,depthL⟩ := perfectSize (n + 1)
    have next : 2 ^ (n + 1 + 2) = 2 * 2 ^ (n + 1 + 1) := Nat.pow_succ'
    have same : 2 ^ (n + 2) = 2 ^ (n + 1 + 1) := rfl
    rw [clipped,Tree.nodeCount,Tree.triangleCount,Tree.depth,trianglesL,depthL,next]
    omega

theorem sproutCountable : sprout.Countable := Tree.countableLeaf.mpr (by decide)

theorem clippedCountable (n : Nat) : (clipped n).Countable := by
  have perfect (n : Nat) : (perfect n).Countable := by
    induction n with
    | zero => exact sproutCountable
    | succ n ih => exact Tree.countableInner.mpr ⟨ih,ih⟩
  induction n with
  | zero => exact sproutCountable
  | succ n ih => exact Tree.countableInner.mpr ⟨perfect (n + 1),ih⟩

section
variable {x : Tree StoredBox}

theorem extendedGuarded (countable : x.Countable) (nodes : x.nodeCount = 2147483645)
    (triangles : x.triangleCount ≤ 2147483648) (shallow : x.depth ≤ 30) : Guarded (extended x) where
  countable := Tree.countableInner.mpr ⟨countable,
    Tree.countableInner.mpr ⟨Tree.countableInner.mpr ⟨sproutCountable,sproutCountable⟩,sproutCountable⟩⟩
  nodes := by
    simp only [extended,sprout,Tree.nodeCount,nodes]
    decide
  triangles := by
    simp only [extended,sprout,Tree.triangleCount,List.length_singleton,wordLimit]
    omega
  shallow := by
    simp only [extended,sprout,Tree.depth]
    omega

theorem extendedStray (nodes : x.nodeCount = 2147483645) : (extended x).stray 0 = 0 := by
  have left : x.stray (0 + 1) = 0 := Tree.strayNone (by omega)
  simp only [extended,sprout,Tree.stray,nodes,left]

theorem extendedLast (nodes : x.nodeCount = 2147483645) :
    ∃ b l r, Plan.inner 2147483647 b l r ∈ ((extended x).planAt 0 0).parts ∧
      l.place = 2147483648 ∧ r.place = 2147483649 := by
  refine ⟨cube,sprout.planAt 2147483648 (0 + x.triangleCount),
    sprout.planAt 2147483649 (0 + x.triangleCount + 1),?_,rfl,rfl⟩
  simp [extended,sprout,Tree.planAt,Plan.parts,Tree.nodeCount,Tree.triangleCount,nodes]

end

theorem overgrownSize : (clipped 29).nodeCount = 2147483645 := by
  have size := (clippedSize 29).1
  omega

theorem overgrownLaid : ofStored overgrown = .ok overgrown.laid := by
  obtain ⟨_,triangles,depth⟩ := clippedSize 29
  refine ofStoredGuarded.mpr ⟨?_,extendedStray overgrownSize,rfl⟩
  exact extendedGuarded (clippedCountable 29) overgrownSize (by omega) depth

theorem overgrownKept : ofStored overgrown = .ok overgrown.laid ∧
    ∀ p b l r, Plan.inner p b l r ∈ (overgrown.planAt 0 0).parts → ∃ node, overgrown.laid.node? p = some node ∧
      (p.toNat ≠ 2147483647 → node.kind = .inner l.place r.place) := by
  refine ⟨overgrownLaid,fun p b l r member => ?_⟩
  obtain ⟨node,found,_,_,kind,_⟩ := (@innerKinds overgrown overgrown.laid).2 overgrownLaid p b l r member
  exact ⟨node,found,kind⟩

theorem overgrownFlagged : ¬∀ t h, ofStored t = .ok h → ∀ p b l r, Plan.inner p b l r ∈ (t.planAt 0 0).parts →
    ∃ node, h.node? p = some node ∧ node.kind = .inner l.place r.place := by
  intro sufficient
  obtain ⟨b,l,r,member,left,right⟩ := extendedLast overgrownSize
  obtain ⟨node,found,kind⟩ := sufficient _ _ overgrownLaid _ b l r member
  have guarded := (ofStoredGuarded.mp overgrownLaid).1
  have there := laidNode (Nat.le_succ_of_le guarded.nodes) member
  rw [Plan.placeInner] at there
  have same := Option.some.inj (found.symm.trans there)
  have flagged : (Plan.inner 2147483647 b l r).node.kind = .leaf 2147483649 0 := by
    rw [Plan.node,left,right]
    exact Node.kindFlagged b _ (UInt32.le_refl _)
  rw [same,flagged] at kind
  cases kind

end Sightline.Hierarchy
