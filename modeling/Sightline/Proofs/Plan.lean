import Sightline.Hierarchy
import Mathlib.Data.List.Nodup
import Mathlib.Data.List.Perm.Subperm

/-! Where a tree lies in an array of nodes. A plan is a tree that names the place of each node and the
range of each leaf. A hierarchy holds a plan when its nodes say the same; then the plan is what is
found by following children from its place, turn by turn, and its tree is the tree that the nodes spell.
Nothing here asks that places differ: that no place is used twice is the same as that no two ways lead
to one place, which is stated for any labels that the parts of a plan may carry. -/
namespace Sightline

inductive Plan where
  | leaf (place : UInt32) (bounds : StoredBox) (start count : UInt32)
  | inner (place : UInt32) (bounds : StoredBox) (left right : Plan)
  deriving DecidableEq, Repr

inductive Turn where
  | left
  | right
  deriving DecidableEq, Repr

namespace Turn

def pick (t : Turn) (left right : α) : α :=
  match t with
  | .left => left
  | .right => right

end Turn

namespace Plan

def place : Plan → UInt32
  | leaf place _ _ _ => place
  | inner place _ _ _ => place

def depth : Plan → Nat
  | leaf _ _ _ _ => 0
  | inner _ _ l r => 1 + max l.depth r.depth

def stored (order : Array UInt32) : Plan → Tree StoredBox
  | leaf _ b start count => .leaf b (order.extract start.toNat (start.toNat + count.toNat)).toList
  | inner _ b l r => .inner b (l.stored order) (r.stored order)

def tree (order : Array UInt32) (p : Plan) : Tree := (p.stored order).unstored

def parts : Plan → List Plan
  | leaf place b start count => [leaf place b start count]
  | inner place b l r => inner place b l r :: (l.parts ++ r.parts)

def partAt : Plan → List Turn → Option Plan
  | p, [] => some p
  | leaf _ _ _ _, _ :: _ => none
  | inner _ _ l r, turn :: rest => match turn with
    | .left => l.partAt rest
    | .right => r.partAt rest

def own : Plan → List Nat
  | leaf _ _ start count => List.range' start.toNat count.toNat
  | inner _ _ _ _ => []

def places (p : Plan) : List Nat := p.parts.map fun q => q.place.toNat
def slots (p : Plan) : List Nat := p.parts.flatMap own

@[simp] theorem placeLeaf (place : UInt32) (b : StoredBox) (start count : UInt32) :
    (leaf place b start count).place = place := rfl

@[simp] theorem placeInner (place : UInt32) (b : StoredBox) (l r : Plan) :
    (inner place b l r).place = place := rfl

theorem treeLeaf (order : Array UInt32) (place : UInt32) (b : StoredBox) (start count : UInt32) :
    (leaf place b start count).tree order =
      .leaf b.toBox (order.extract start.toNat (start.toNat + count.toNat)).toList := rfl

theorem treeInner (order : Array UInt32) (place : UInt32) (b : StoredBox) (l r : Plan) :
    (inner place b l r).tree order = .inner b.toBox (l.tree order) (r.tree order) := rfl

theorem placesLeaf (place : UInt32) (b : StoredBox) (start count : UInt32) :
    (leaf place b start count).places = [place.toNat] := rfl

theorem ownNodup (p : Plan) : p.own.Nodup := by
  cases p with
  | leaf place b start count => exact List.nodup_range'
  | inner place b l r => exact .nil

theorem placesFlat (p : Plan) : p.places = p.parts.flatMap fun q => [q.place.toNat] :=
  List.map_eq_flatMap

theorem placesInner (place : UInt32) (b : StoredBox) (l r : Plan) :
    (inner place b l r).places = place.toNat :: (l.places ++ r.places) := by
  simp [places,parts]

theorem slotsLeaf (place : UInt32) (b : StoredBox) (start count : UInt32) :
    (leaf place b start count).slots = List.range' start.toNat count.toNat := by
  simp [slots,parts,own]

theorem slotsInner (place : UInt32) (b : StoredBox) (l r : Plan) :
    (inner place b l r).slots = l.slots ++ r.slots := by
  simp [slots,parts,own]

theorem placesLength (p : Plan) : p.places.length = p.parts.length := List.length_map _

theorem depthParts (p : Plan) : p.depth < p.parts.length := by
  induction p with
  | leaf place b start count => exact Nat.zero_lt_one
  | inner place b l r hl hr => simp only [depth,parts,List.length_cons,List.length_append]; omega

theorem selfPart (p : Plan) : p ∈ p.parts := by cases p <;> exact List.mem_cons_self

theorem partAtDepth {p q : Plan} {path : List Turn} (found : p.partAt path = some q) :
    path.length + q.depth ≤ p.depth := by
  induction p generalizing path with
  | leaf place b start count =>
    cases path with
    | nil => cases Option.some.inj found; simp
    | cons turn rest => contradiction
  | inner place b l r hl hr =>
    cases path with
    | nil => cases Option.some.inj found; simp
    | cons turn rest =>
      cases turn with
      | left => have := hl found; simp only [List.length_cons,depth]; omega
      | right => have := hr found; simp only [List.length_cons,depth]; omega

theorem memParts {p q : Plan} : q ∈ p.parts ↔ ∃ path, p.partAt path = some q := by
  induction p with
  | leaf place b start count =>
    constructor
    · intro member
      exact ⟨[],congrArg some (List.mem_singleton.mp member).symm⟩
    · rintro ⟨path,found⟩
      cases path with
      | nil => exact List.mem_singleton.mpr (Option.some.inj found).symm
      | cons turn rest => contradiction
  | inner place b l r hl hr =>
    simp only [parts,List.mem_cons,List.mem_append,hl,hr]
    constructor
    · rintro (same | ⟨path,found⟩ | ⟨path,found⟩)
      · exact ⟨[],congrArg some same.symm⟩
      · exact ⟨.left :: path,found⟩
      · exact ⟨.right :: path,found⟩
    · rintro ⟨path,found⟩
      cases path with
      | nil => exact .inl (Option.some.inj found).symm
      | cons turn rest =>
        cases turn with
        | left => exact .inr (.inl ⟨rest,found⟩)
        | right => exact .inr (.inr ⟨rest,found⟩)

def Apart (label : Plan → List α) (p : Plan) : Prop :=
  ∀ a b q r x, p.partAt a = some q → p.partAt b = some r → x ∈ label q → x ∈ label r → a = b

theorem apartOfNodup {label : Plan → List α} {p : Plan} (once : (p.parts.flatMap label).Nodup) :
    Apart label p := by
  induction p with
  | leaf place b start count =>
    intro a b' q r x atA atB _ _
    cases a with
    | cons turn rest => contradiction
    | nil => cases b' with
      | nil => rfl
      | cons turn rest => contradiction
  | inner place b l r hl hr =>
    simp only [parts,List.flatMap_cons,List.flatMap_append,List.nodup_append'] at once
    obtain ⟨_,⟨onceL,onceR,sides⟩,top⟩ := once
    have below : ∀ {s : Plan} {turn rest x}, (inner place b l r).partAt (turn :: rest) = some s →
        x ∈ label s → x ∈ (Turn.pick turn l r).parts.flatMap label := by
      intro s turn rest x found member
      refine List.mem_flatMap.mpr ⟨s,memParts.mpr ⟨rest,?_⟩,member⟩
      cases turn <;> exact found
    have under : ∀ {turn : Turn} {x}, x ∈ (turn.pick l r).parts.flatMap label →
        x ∈ l.parts.flatMap label ++ r.parts.flatMap label := by
      intro turn x member
      cases turn with
      | left => exact List.mem_append_left _ member
      | right => exact List.mem_append_right _ member
    intro a b' q s x atA atB inA inB
    -- the same way, a way and a shorter one, or two ways that part at the top
    cases a with
    | nil =>
      cases Option.some.inj atA
      cases b' with
      | nil => rfl
      | cons turn rest => exact (top inA (under (below atB inB))).elim
    | cons turn rest =>
      cases b' with
      | nil =>
        cases Option.some.inj atB
        exact (top inB (under (below atA inA))).elim
      | cons turn' rest' =>
        have memberA := below atA inA
        have memberB := below atB inB
        cases turn <;> cases turn'
        · exact congrArg _ (hl onceL rest rest' q s x atA atB inA inB)
        · exact (sides memberA memberB).elim
        · exact (sides memberB memberA).elim
        · exact congrArg _ (hr onceR rest rest' q s x atA atB inA inB)

theorem nodupOfApart {label : Plan → List α} {p : Plan}
    (each : ∀ q ∈ p.parts, (label q).Nodup) (apart : Apart label p) :
    (p.parts.flatMap label).Nodup := by
  induction p with
  | leaf place b start count =>
    simpa [parts] using each _ List.mem_cons_self
  | inner place b l r hl hr =>
    simp only [parts,List.mem_cons,List.mem_append] at each
    simp only [parts,List.flatMap_cons,List.flatMap_append,List.nodup_append']
    refine ⟨each _ (.inl rfl),⟨hl (fun q m => each q (.inr (.inl m))) ?_,
      hr (fun q m => each q (.inr (.inr m))) ?_,?_⟩,?_⟩
    · intro a b' q s x atA atB inA inB
      exact (List.cons.inj (apart (.left :: a) (.left :: b') q s x atA atB inA inB)).2
    · intro a b' q s x atA atB inA inB
      exact (List.cons.inj (apart (.right :: a) (.right :: b') q s x atA atB inA inB)).2
    · intro x inL inR
      obtain ⟨q,partL,memberL⟩ := List.mem_flatMap.mp inL
      obtain ⟨s,partR,memberR⟩ := List.mem_flatMap.mp inR
      obtain ⟨a,atA⟩ := memParts.mp partL
      obtain ⟨b',atB⟩ := memParts.mp partR
      have same := apart (.left :: a) (.right :: b') q s x atA atB memberL memberR
      exact Turn.noConfusion (List.cons.inj same).1
    · intro x inTop inBelow
      rw [← List.flatMap_append] at inBelow
      obtain ⟨s,part,member⟩ := List.mem_flatMap.mp inBelow
      rcases List.mem_append.mp part with part | part
      · obtain ⟨a,atA⟩ := memParts.mp part
        have := apart [] (.left :: a) _ s x rfl atA inTop member
        contradiction
      · obtain ⟨a,atA⟩ := memParts.mp part
        have := apart [] (.right :: a) _ s x rfl atA inTop member
        contradiction

end Plan

namespace Hierarchy

inductive Holds (h : Hierarchy) : Plan → Prop where
  | leaf {place node start count} (found : h.node? place = some node)
      (kind : node.kind = .leaf start count)
      (inside : start.toNat + count.toNat ≤ h.order.size) :
      Holds h (.leaf place node.stored start count)
  | inner {place node l r} (found : h.node? place = some node)
      (kind : node.kind = .inner l.place r.place) (left : Holds h l) (right : Holds h r) :
      Holds h (.inner place node.stored l r)

theorem partsHeld {h : Hierarchy} {p : Plan} (held : Holds h p) : ∀ q ∈ p.parts, Holds h q := by
  induction held with
  | leaf found kind inside =>
    intro q member
    cases List.mem_singleton.mp member
    exact .leaf found kind inside
  | inner found kind left right hl hr =>
    intro q member
    rcases List.mem_cons.mp member with rfl | member
    · exact .inner found kind left right
    · rcases List.mem_append.mp member with member | member
      · exact hl q member
      · exact hr q member

theorem heldLeaf {h : Hierarchy} {place : UInt32} {b : StoredBox} {start count : UInt32} :
    Holds h (.leaf place b start count) ↔ ∃ node, h.node? place = some node ∧ node.stored = b ∧
      node.kind = .leaf start count ∧ start.toNat + count.toNat ≤ h.order.size := by
  constructor
  · intro held
    cases held with
    | leaf found kind inside => exact ⟨_,found,rfl,kind,inside⟩
  · rintro ⟨node,found,rfl,kind,inside⟩
    exact .leaf found kind inside

theorem heldInner {h : Hierarchy} {place : UInt32} {b : StoredBox} {l r : Plan} :
    Holds h (.inner place b l r) ↔ ∃ node, h.node? place = some node ∧ node.stored = b ∧
      node.kind = .inner l.place r.place ∧ Holds h l ∧ Holds h r := by
  constructor
  · intro held
    cases held with
    | inner found kind left right => exact ⟨_,found,rfl,kind,left,right⟩
  · rintro ⟨node,found,rfl,kind,left,right⟩
    exact .inner found kind left right

theorem heldNode {h : Hierarchy} {p : Plan} (held : Holds h p) :
    ∃ node, h.node? p.place = some node := by
  cases held with
  | leaf found kind inside => exact ⟨_,found⟩
  | inner found kind left right => exact ⟨_,found⟩

theorem nodeInside {h : Hierarchy} {place : UInt32} {node : Node}
    (found : h.node? place = some node) : place.toNat < h.nodes.size :=
  (Array.getElem?_eq_some_iff.mp found).1

theorem slotsInside {h : Hierarchy} {p : Plan} (held : Holds h p) :
    ∀ slot ∈ p.slots, slot < h.order.size := by
  induction held with
  | leaf found kind inside =>
    intro slot member
    rw [Plan.slotsLeaf,List.mem_range'_1] at member
    omega
  | inner found kind left right hl hr =>
    intro slot member
    rw [Plan.slotsInner] at member
    rcases List.mem_append.mp member with member | member
    · exact hl slot member
    · exact hr slot member

theorem rangeInside {h : Hierarchy} {start count : UInt32}
    (inside : start.toNat + count.toNat ≤ h.order.size) : h.range? start count =
      some (h.order.extract start.toNat (start.toNat + count.toNat)).toList := if_pos inside

theorem storedHeld {h : Hierarchy} {p : Plan} (held : Holds h p) {levels : Nat}
    (enough : p.depth < levels) : h.storedFrom levels p.place = some (p.stored h.order) := by
  induction held generalizing levels with
  | leaf found kind inside =>
    cases levels with
    | zero => contradiction
    | succ levels => simp [storedFrom,found,kind,rangeInside inside,Plan.stored]
  | inner found kind left right hl hr =>
    cases levels with
    | zero => contradiction
    | succ levels =>
      simp only [Plan.depth] at enough
      have atL : h.storedFrom levels _ = _ := hl (by omega)
      have atR : h.storedFrom levels _ = _ := hr (by omega)
      simp [storedFrom,found,kind,atL,atR,Plan.stored]

theorem treeHeld {h : Hierarchy} {p : Plan} (held : Holds h p) {levels : Nat}
    (enough : p.depth < levels) : h.treeFrom levels p.place = some (p.tree h.order) :=
  congrArg (Option.map Tree.unstored) (storedHeld held enough)

def follow (h : Hierarchy) : UInt32 → List Turn → Option UInt32
  | index, [] => some index
  | index, turn :: rest =>
    match (h.node? index).map Node.kind with
    | some (.inner left right) => h.follow (turn.pick left right) rest
    | _ => none

theorem followHeld {h : Hierarchy} {p : Plan} (held : Holds h p) (path : List Turn) :
    h.follow p.place path = (p.partAt path).map Plan.place := by
  induction held generalizing path with
  | leaf found kind inside =>
    cases path with
    | nil => rfl
    | cons turn rest => simp [follow,found,kind,Plan.partAt]
  | inner found kind left right hl hr =>
    cases path with
    | nil => rfl
    | cons turn rest =>
      cases turn with
      | left => simpa [follow,found,kind,Plan.partAt,Turn.pick] using hl rest
      | right => simpa [follow,found,kind,Plan.partAt,Turn.pick] using hr rest

end Hierarchy
end Sightline
