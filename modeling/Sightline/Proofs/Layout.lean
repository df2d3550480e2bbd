import Sightline.Hierarchy.Layout
import Sightline.Proofs.Check
import Sightline.Proofs.Stored

/-! What a tree is laid out as. The plan of a tree gives its nodes the places in pre-order and its leaves
the slots from left to right, both without a gap. A draft that has room for a tree at its next place
fills just that room with the nodes of the plan, whatever lies before and after, and a hierarchy that has
these nodes holds the plan. So a tree whose numbers fit their words comes out as a hierarchy that passes
its check and spells the tree, unless it is too deep to be searched, which is then the only complaint. A tree
with still more nodes may have children at places that set the bit of a leaf; what their parents then seem to
hold goes astray. -/
namespace Sightline

def Plan.node : Plan → Node
  | leaf _ b start count => .leaf b start count
  | inner _ b l r => .inner b l.place r.place

theorem wordKept {n : Nat} (word : n < 4294967296) : n.toUInt32.toNat = n :=
  UInt32.toNat_ofNat_of_lt' word

theorem flagFree {n : Nat} (few : n < 2147483648) : n.toUInt32 < Node.leafFlag := by
  rw [UInt32.lt_iff_toNat_lt,wordKept (by omega)]
  exact few

namespace Tree
section
variable {β : Type}

/-- How many triangles the inner nodes seem to hold: a left child whose place needs the bit that marks a
leaf makes its parent look like a leaf, counted by the other bits. -/
def stray (place : Nat) : Tree β → Nat
  | leaf _ _ => 0
  | inner _ l r => (place + 1 - 2147483648) + (l.stray (place + 1) + r.stray (place + 1 + l.nodeCount))

def Countable (t : Tree β) : Prop := ∀ ts ∈ t.leaves, ts.length ≤ Node.leafLimit

structure Fits (t : Tree β) : Prop where
  countable : t.Countable
  nodes : t.nodeCount ≤ 2147483648
  triangles : t.triangleCount ≤ Hierarchy.wordLimit

theorem countableInner {b : β} {l r : Tree β} :
    (inner b l r).Countable ↔ l.Countable ∧ r.Countable := List.forall_mem_append

theorem countableLeaf {b : β} {ts : List UInt32} :
    (leaf b ts).Countable ↔ ts.length ≤ Node.leafLimit := by
  simp [Countable,leaves]

theorem storedDepth (t : Tree) : t.stored.depth = t.depth := mapDepth _ t

theorem storedFits {t : Tree} (fits : t.Fits) : t.stored.Fits where
  countable := by simpa [Countable,stored] using fits.countable
  nodes := by simpa [stored] using fits.nodes
  triangles := by simpa [stored] using fits.triangles

theorem strayNone {place : Nat} {t : Tree β} (room : place + t.nodeCount ≤ 2147483648) : t.stray place = 0 := by
  induction t generalizing place with
  | leaf b ts => rfl
  | inner b l r hl hr =>
    simp only [nodeCount] at room
    have left := @hl (place + 1) (by omega)
    have right := @hr (place + 1 + l.nodeCount) (by omega)
    rw [stray,left,right]
    omega

end

def planAt (place start : Nat) : Tree StoredBox → Plan
  | leaf b ts => .leaf place.toUInt32 b start.toUInt32 ts.length.toUInt32
  | inner b l r => .inner place.toUInt32 b (l.planAt (place + 1) start)
      (r.planAt (place + 1 + l.nodeCount) (start + l.triangleCount))

def nodesAt (place start : Nat) (t : Tree StoredBox) : List Node := (t.planAt place start).parts.map Plan.node

def laid (t : Tree StoredBox) : Hierarchy := ⟨(t.nodesAt 0 0).toArray,t.triangles.toArray⟩

theorem planPlace (place start : Nat) (t : Tree StoredBox) : (t.planAt place start).place = place.toUInt32 := by
  cases t <;> rfl

theorem planDepth (place start : Nat) (t : Tree StoredBox) : (t.planAt place start).depth = t.depth := by
  induction t generalizing place start with
  | leaf b ts => rfl
  | inner b l r hl hr => simp only [planAt,Plan.depth,depth,hl,hr]

theorem nodesLength (place start : Nat) (t : Tree StoredBox) : (t.nodesAt place start).length = t.nodeCount := by
  induction t generalizing place start with
  | leaf b ts => rfl
  | inner b l r hl hr =>
    simp only [nodesAt,List.length_map] at hl hr
    simp only [nodesAt,planAt,Plan.parts,List.length_map,List.length_cons,List.length_append,hl,hr,nodeCount]
    omega

theorem nodesInner (place start : Nat) (b : StoredBox) (l r : Tree StoredBox) : (inner b l r).nodesAt place start =
    .inner b (place + 1).toUInt32 (place + 1 + l.nodeCount).toUInt32 ::
      (l.nodesAt (place + 1) start ++ r.nodesAt (place + 1 + l.nodeCount) (start + l.triangleCount)) := by
  simp only [nodesAt,planAt,Plan.parts,List.map_cons,List.map_append,Plan.node,planPlace]

theorem planPlaces (place start : Nat) (t : Tree StoredBox) (room : place + t.nodeCount ≤ 4294967296) :
    (t.planAt place start).places = List.range' place t.nodeCount := by
  induction t generalizing place start with
  | leaf b ts =>
    simp only [nodeCount] at room
    rw [planAt,Plan.placesLeaf,wordKept (by omega)]
    rfl
  | inner b l r hl hr =>
    simp only [nodeCount] at room
    rw [planAt,Plan.placesInner,wordKept (by omega),hl _ _ (by omega),hr _ _ (by omega),
      List.range'_append_1,nodeCount,Nat.add_assoc,Nat.add_comm 1,List.range'_succ]

theorem planSlots (place start : Nat) (t : Tree StoredBox) (room : start + t.triangleCount < 4294967296) :
    (t.planAt place start).slots = List.range' start t.triangleCount := by
  induction t generalizing place start with
  | leaf b ts =>
    simp only [triangleCount] at room
    rw [planAt,Plan.slotsLeaf,wordKept (by omega),wordKept (by omega),triangleCount]
  | inner b l r hl hr =>
    simp only [triangleCount] at room
    rw [planAt,Plan.slotsInner,hl _ _ (by omega),hr _ _ (by omega),List.range'_append_1,triangleCount]

end Tree

namespace Hierarchy
variable {t : Tree StoredBox}

theorem fillRoom {size : Nat} {nodes : Vector Node size} {before after : List Node} {x : Node} (slot : Fin size)
    (first : before.length = slot.val) (room : nodes.toList = before ++ x :: after) (n : Node) :
    (nodes.set slot.val n slot.isLt).toList = before ++ n :: after := by
  rw [Vector.toList_set,room,← first]
  simp

theorem reserveFree {size : Nat} {d : Draft size} (free : d.next < size) (depth : Nat) :
    d.reserve depth = .ok (⟨d.next,free⟩,⟨d.nodes,d.order,d.next + 1,max d.deepest depth⟩) := dif_pos free

theorem roomFree {size : Nat} {nodes : Vector Node size} {before after : List Node} {x : Node}
    (room : nodes.toList = before ++ x :: after) : before.length < size := by
  have whole := congrArg List.length room
  rw [Vector.length_toList,List.length_append,List.length_cons] at whole
  omega

theorem roomParts {room : List Node} {left right : Nat} (fits : room.length = 1 + left + right) :
    ∃ x roomL roomR, room = x :: (roomL ++ roomR) ∧ roomL.length = left ∧ roomR.length = right := by
  obtain ⟨x,rest,rfl⟩ := List.exists_cons_of_length_pos (show 0 < room.length by omega)
  rw [List.length_cons] at fits
  refine ⟨x,rest.take left,rest.drop left,?_,List.length_take_of_le (by omega),?_⟩
  · rw [List.take_append_drop]
  · rw [List.length_drop]
    omega

/- The room of an inner node is its own slot and then the rooms of its children. While they are filled,
the slot is part of what lies before. -/
theorem placeRoom (countable : t.Countable) {size : Nat} {d : Draft size} {before room after : List Node}
    (first : before.length = d.next) (nodes : d.nodes.toList = before ++ (room ++ after))
    (fits : room.length = t.nodeCount) (depth : Nat) :
    ∃ filled : Vector Node size, filled.toList = before ++ (t.nodesAt d.next d.order.size ++ after) ∧
      d.place depth t = .ok (d.next.toUInt32,
        ⟨filled,d.order ++ t.triangles.toArray,d.next + t.nodeCount,max d.deepest (depth + t.depth)⟩) := by
  induction t generalizing d before room after depth with
  | leaf b ts =>
    have small := Nat.not_lt.mpr (Tree.countableLeaf.mp countable)
    obtain ⟨x,rfl⟩ := List.length_eq_one_iff.mp fits
    have free : d.next < size := first ▸ roomFree nodes
    refine ⟨_,fillRoom ⟨d.next,free⟩ first nodes (.leaf b d.order.size.toUInt32 ts.length.toUInt32),?_⟩
    simp [Draft.place,reserveFree free,bind,Except.bind,small,pure,Except.pure,Draft.fill,Tree.triangles,
      Tree.leaves,Tree.nodeCount,Tree.depth]
  | inner b l r hl hr =>
    obtain ⟨smallL,smallR⟩ := Tree.countableInner.mp countable
    obtain ⟨x,roomL,roomR,rfl,fitsL,fitsR⟩ := roomParts fits
    have free : d.next < size := first ▸ roomFree nodes
    obtain ⟨left,filledL,placedL⟩ := @hl smallL ⟨d.nodes,d.order,d.next + 1,max d.deepest depth⟩
      (before ++ [x]) roomL (roomR ++ after) (by simp [first]) (by simp [nodes]) fitsL (depth + 1)
    obtain ⟨right,filledR,placedR⟩ := @hr smallR ⟨left,d.order ++ l.triangles.toArray,d.next + 1 + l.nodeCount,
        max (max d.deepest depth) (depth + 1 + l.depth)⟩
      (before ++ [x] ++ l.nodesAt (d.next + 1) d.order.size) roomR after
      (by simp [first,Tree.nodesLength]; omega) (by simp [filledL]) fitsR (depth + 1)
    dsimp only at placedL placedR filledR
    rw [List.append_assoc,List.append_assoc,List.singleton_append] at filledR
    have filled := fillRoom ⟨d.next,free⟩ first filledR
      (.inner b (d.next + 1).toUInt32 (d.next + 1 + l.nodeCount).toUInt32)
    refine ⟨_,filled.trans ?_,?_⟩
    · rw [Tree.nodesInner]
      simp [Tree.trianglesLength]
    · simp only [Draft.place,reserveFree free,bind,Except.bind,placedL,placedR,pure,Except.pure,Draft.fill]
      simp only [Tree.trianglesInner,List.append_toArray,Array.append_assoc,Tree.nodeCount,Tree.depth,
        Except.ok.injEq,Prod.mk.injEq,Draft.mk.injEq,true_and]
      omega

theorem placeBlank (countable : t.Countable) : ∃ filled : Vector Node t.nodeCount, filled.toList = t.nodesAt 0 0 ∧
    (Draft.blank t.nodeCount).place 0 t = .ok (0,⟨filled,t.triangles.toArray,t.nodeCount,t.depth⟩) := by
  obtain ⟨filled,nodes,placed⟩ := @placeRoom t countable _ (Draft.blank t.nodeCount) []
    (.replicate t.nodeCount .blank) [] rfl (by simp [Draft.blank]) List.length_replicate 0
  exact ⟨filled,by simpa [Draft.blank] using nodes,by simpa [Draft.blank] using placed⟩

theorem innerHeld {place : Nat} (room : place + 1 < 4294967296) (b : StoredBox) (right : UInt32) :
    (Node.inner b (place + 1).toUInt32 right).held = place + 1 - 2147483648 := by
  have word := wordKept room
  by_cases free : place + 1 < 2147483648
  · rw [Node.held,Node.kindInner b _ (flagFree free)]
    show 0 = _
    omega
  · have flagged : Node.leafFlag ≤ (place + 1).toUInt32 := by
      rw [UInt32.le_iff_toNat_le,word]
      exact Nat.not_lt.mp free
    rw [Node.held,Node.kindFlagged b _ flagged]
    show ((place + 1).toUInt32 - Node.leafFlag).toNat = _
    rw [UInt32.toNat_sub_of_le _ _ flagged,word]
    rfl

theorem heldNodes (countable : t.Countable) {place start : Nat}
    (room : place + t.nodeCount ≤ 4294967296) (n : Nat) :
    (t.nodesAt place start).foldl (fun n node => n + node.held) n =
      n + t.triangleCount + t.stray place := by
  induction t generalizing place start n with
  | leaf b ts =>
    have small : ts.length ≤ 2147483647 := Tree.countableLeaf.mp countable
    have kind := Node.kindLeaf b start.toUInt32 (flagFree (show ts.length < 2147483648 by omega))
    show n + (Node.leaf b start.toUInt32 ts.length.toUInt32).held = n + ts.length
    rw [Node.held,kind]
    dsimp only
    rw [wordKept (by omega)]
  | inner b l r hl hr =>
    obtain ⟨smallL,smallR⟩ := Tree.countableInner.mp countable
    simp only [Tree.nodeCount] at room
    have someR := r.nodeCountPositive
    rw [Tree.nodesInner,List.foldl_cons,List.foldl_append,hl smallL (by omega),hr smallR (by omega),
      innerHeld (by omega),Tree.triangleCount,Tree.stray]
    omega

theorem nodeFound {h : Hierarchy} {before after : List Node} {n : Node} {place : Nat}
    (first : before.length = place) (nodes : h.nodes.toList = before ++ n :: after)
    (word : place < 4294967296) : h.node? place.toUInt32 = some n := by
  rw [node?,wordKept word,← Array.getElem?_toList,nodes,← first]
  simp

theorem holdsNodes {h : Hierarchy} (countable : t.Countable) {place start : Nat} {before after : List Node}
    {earlier later : List UInt32} (first : before.length = place) (listed : earlier.length = start)
    (nodes : h.nodes.toList = before ++ (t.nodesAt place start ++ after))
    (order : h.order.toList = earlier ++ (t.triangles ++ later))
    (room : place + t.nodeCount ≤ 2147483648) (words : start + t.triangleCount < 4294967296) :
    h.Holds (t.planAt place start) ∧ (t.planAt place start).stored h.order = t := by
  induction t generalizing place start before after earlier later with
  | leaf b ts =>
    have small : ts.length ≤ 2147483647 := Tree.countableLeaf.mp countable
    have order : h.order.toList = earlier ++ (ts ++ later) := by
      simpa [Tree.triangles,Tree.leaves] using order
    have size := congrArg List.length order
    simp only [Tree.nodeCount] at room
    simp only [Tree.triangleCount] at words
    simp only [Array.length_toList,List.length_append] at size
    constructor
    · refine heldLeaf.mpr ⟨_,nodeFound first nodes (by omega),rfl,
        Node.kindLeaf b _ (flagFree (by omega)),?_⟩
      rw [wordKept (by omega),wordKept (by omega)]
      omega
    · rw [Tree.planAt,Plan.stored,wordKept (by omega),wordKept (by omega),Array.toList_extract,order]
      simp [List.extract,← listed]
  | inner b l r hl hr =>
    obtain ⟨smallL,smallR⟩ := Tree.countableInner.mp countable
    have someR := r.nodeCountPositive
    simp only [Tree.nodeCount] at room
    simp only [Tree.triangleCount] at words
    rw [Tree.nodesInner,List.cons_append] at nodes
    rw [Tree.trianglesInner] at order
    have found := nodeFound first nodes (by omega)
    generalize Node.inner b _ _ = top at nodes
    -- either half has the other one among what lies around it
    obtain ⟨heldL,treeL⟩ := @hl smallL (place + 1) start (before ++ [top]) _ earlier (r.triangles ++ later)
      (by simp [first]) listed (by simpa using nodes) (by simpa using order) (by omega) (by omega)
    obtain ⟨heldR,treeR⟩ := @hr smallR (place + 1 + l.nodeCount) (start + l.triangleCount)
      (before ++ top :: l.nodesAt (place + 1) start) after (earlier ++ l.triangles) later
      (by simp [first,Tree.nodesLength]; omega) (by simp [listed,Tree.trianglesLength])
      (by simpa using nodes) (by simpa using order) (by omega) (by omega)
    constructor
    · refine heldInner.mpr ⟨_,found,rfl,?_,heldL,heldR⟩
      rw [Node.kindInner b _ (flagFree (by omega)),Tree.planPlace,Tree.planPlace]
    · rw [Tree.planAt,Plan.stored,treeL,treeR]

theorem laidComplete (fits : t.Fits) (shallow : t.depth < stackCapacity) :
    t.laid.Complete (t.planAt 0 0) ∧ (t.planAt 0 0).stored t.laid.order = t := by
  obtain ⟨countable,nodes,triangles⟩ := fits
  have words : t.triangleCount < 4294967296 := Nat.lt_succ_of_le triangles
  obtain ⟨held,spelled⟩ := @holdsNodes t t.laid countable 0 0 [] [] [] [] rfl rfl
    (by simp [Tree.laid]) (by simp [Tree.laid]) (by omega) (by omega)
  refine ⟨⟨Tree.planPlace 0 0 t,held,?_,?_,?_⟩,spelled⟩
  · rwa [Tree.planDepth]
  · rw [Tree.planPlaces _ _ _ (by omega),← List.range_eq_range',Tree.laid,List.size_toArray,
      Tree.nodesLength]
  · rw [Tree.planSlots _ _ _ (by omega),← List.range_eq_range',Tree.laid,List.size_toArray,
      Tree.trianglesLength]

theorem ofStoredCounted (countable : t.Countable) (nodes : t.nodeCount ≤ wordLimit)
    (triangles : t.triangleCount ≤ wordLimit) : ofStored t =
    if t.stray 0 = 0 then
      if t.depth < stackCapacity then .ok t.laid else .error (.tooDeep t.depth stackCapacity)
    else .error (.mismatch (.triangles (t.triangleCount + t.stray 0)) t.triangleCount t.triangleCount) := by
  obtain ⟨filled,listed,placed⟩ := placeBlank countable
  have whole : filled.toArray = t.laid.nodes := congrArg List.toArray listed
  have held : Draft.held ⟨filled,t.triangles.toArray,t.nodeCount,t.depth⟩ = t.triangleCount + t.stray 0 := by
    have counted := @heldNodes t countable 0 0 (by unfold wordLimit at nodes; omega) 0
    rwa [Nat.zero_add,← listed] at counted
  have size : t.triangles.toArray.size = t.triangleCount := t.trianglesLength
  have few : ¬(t.triangleCount > wordLimit ∨ t.nodeCount > wordLimit) := by omega
  simp only [ofStored,few,placed,bind,Except.bind,held,size,whole,if_false,pure,Except.pure,
    ne_eq,not_true_eq_false,or_false]
  by_cases none : t.stray 0 = 0
  · rw [if_neg (by omega),if_pos none]
    by_cases shallow : t.depth < stackCapacity
    · rw [if_neg (Nat.not_le.mpr shallow),if_pos shallow]
      rfl
    · rw [if_pos (Nat.not_lt.mp shallow),if_neg shallow]
      rfl
  · rw [if_pos (by omega),if_neg none]
    rfl

theorem ofStoredLaid (fits : t.Fits) : ofStored t =
    if t.depth < stackCapacity then .ok t.laid else .error (.tooDeep t.depth stackCapacity) := by
  obtain ⟨countable,nodes,triangles⟩ := fits
  rw [ofStoredCounted countable (Nat.le_trans nodes (by decide)) triangles,if_pos (Tree.strayNone (by omega))]

section
variable {t : Tree}

theorem laidNodes (t : Tree) : t.stored.laid.nodes.size = t.nodeCount :=
  (Tree.nodesLength 0 0 t.stored).trans (Tree.mapNodeCount _ t)

theorem laidOrder (t : Tree) : t.stored.laid.order.toList = t.triangles := Tree.mapTriangles _ t

theorem ofTreeLaid (fits : t.Fits) : ofTree t =
    if t.depth < stackCapacity then .ok t.stored.laid else .error (.tooDeep t.depth stackCapacity) := by
  rw [ofTree,ofStoredLaid (Tree.storedFits fits),Tree.storedDepth]

theorem treeLaid (fits : t.Fits) (shallow : t.depth < stackCapacity) :
    t.stored.laid.Complete (t.stored.planAt 0 0) ∧ (t.stored.planAt 0 0).tree t.stored.laid.order = t := by
  obtain ⟨complete,spelled⟩ := laidComplete (Tree.storedFits fits) (t.storedDepth.symm ▸ shallow)
  exact ⟨complete,by rw [Plan.tree,spelled,Tree.storedBack]⟩

end
end Hierarchy
end Sightline
