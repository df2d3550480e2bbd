import Sightline.Hierarchy.Flaw
/-! Checking that nodes form a tree fit to be searched. All nodes are visited from the root, each at
most once because a place is marked before it is put on the list of places to visit; on the way every
leaf marks the slots of the triangle list that it covers. What is left to compare at the end are three
counts and the list itself, which must name every triangle once. The first thing found wrong is the
answer. -/
namespace Sightline.Hierarchy

def mark {n : Nat} (marks : Vector Bool n) (i : Fin n) : Vector Bool n := marks.set i.val true i.isLt

structure Survey (h : Hierarchy) where
  seen : Vector Bool h.nodes.size
  covered : Vector Bool h.order.size
  held : Nat
  visits : Nat
  pending : List (Fin h.nodes.size × Nat)

namespace Survey

/-- Places not yet marked or not yet visited; every visit leaves fewer. -/
def remaining (s : Survey h) : Nat := s.seen.count false + s.pending.length

def enter (s : Survey h) (index : Fin h.nodes.size) (child : UInt32) (depth : Nat) :
    Except Flaw { t : Survey h // t.remaining ≤ s.remaining } :=
  if child.toNat = index.val then .error (.ownChild child)
  else if inside : child.toNat < h.nodes.size then
    if fresh : s.seen[child.toNat] = false then
      .ok ⟨{ s with
        seen := mark s.seen ⟨child.toNat,inside⟩
        pending := (⟨child.toNat,inside⟩,depth) :: s.pending }, by
          have one : 0 < s.seen.count false :=
            Vector.count_pos_iff.mpr (by rw [← fresh]; exact Vector.getElem_mem inside)
          simp only [remaining,mark,Vector.count_set,fresh,List.length_cons]
          simp
          omega⟩
    else .error (.reachedTwice child)
  else .error (.childPastEnd index.val.toUInt32 child h.nodes.size)

def slots {h : Hierarchy} (start count : UInt32) (inside : start.toNat + count.toNat ≤ h.order.size) :
    List (Fin h.order.size) :=
  List.ofFn fun i : Fin count.toNat => ⟨start.toNat + i,by omega⟩

def cover (s : Survey h) (index : Fin h.nodes.size) (start count : UInt32) :
    Except Flaw { t : Survey h // t.remaining = s.remaining } :=
  if inside : start.toNat + count.toNat ≤ h.order.size then
    match (slots start count inside).find? fun i => s.covered[i] with
    | some slot => .error (.leafOverlap index.val.toUInt32 slot)
    | none => .ok ⟨{ s with
        covered := (slots start count inside).foldl mark s.covered
        held := s.held + count.toNat },rfl⟩
  else .error (.leafPastEnd index.val.toUInt32 start.toNat (start.toNat + count.toNat) h.order.size)

def visit (s : Survey h) (index : Fin h.nodes.size) (depth : Nat) :
    Except BuildError { t : Survey h // t.remaining ≤ s.remaining } :=
  if depth ≥ stackCapacity then .error (.tooDeep depth stackCapacity)
  else
    match h.nodes[index].kind with
    | .inner left right =>
      match s.enter index left (depth + 1) with
      | .error flaw => .error (.invalid flaw)
      | .ok l =>
        match l.val.enter index right (depth + 1) with
        | .error flaw => .error (.invalid flaw)
        | .ok r => .ok ⟨r.val,Nat.le_trans r.property l.property⟩
    | .leaf start count =>
      match s.cover index start count with
      | .error flaw => .error (.invalid flaw)
      | .ok t => .ok ⟨t.val,Nat.le_of_eq t.property⟩

def next (s : Survey h) (index : Fin h.nodes.size) (depth : Nat)
    (rest : List (Fin h.nodes.size × Nat)) (h' : s.pending = (index,depth) :: rest) :
    Except BuildError { t : Survey h // t.remaining < s.remaining } :=
  match ({ s with pending := rest, visits := s.visits + 1 } : Survey h).visit index depth with
  | .error e => .error e
  | .ok t => .ok ⟨t.val, by
      have := t.property
      simp only [remaining,h',List.length_cons] at *
      omega⟩

def run (s : Survey h) : Except BuildError (Survey h) :=
  match listed : s.pending with
  | [] => .ok s
  | (index,depth) :: rest =>
    match s.next index depth rest listed with
    | .error e => .error e
    | .ok t => run t.val
termination_by s.remaining
decreasing_by exact t.property

def start (h : Hierarchy) (nonempty : 0 < h.nodes.size) : Survey h :=
  { seen := (Vector.replicate h.nodes.size false).set 0 true
    covered := Vector.replicate h.order.size false
    held := 0
    visits := 0
    pending := [(⟨0,nonempty⟩,0)] }

end Survey

def list {triangles : Nat} (named : Vector Bool triangles) (triangle : UInt32) :
    Except BuildError (Vector Bool triangles) :=
  if inside : triangle.toNat < triangles then
    if named[triangle.toNat] then .error (.invalid (.listedTwice triangle))
    else .ok (mark named ⟨triangle.toNat,inside⟩)
  else .error (.invalid (.notATriangle triangle))

def checkOrder (order : List UInt32) (triangles : Nat) : Except BuildError Unit := do
  let _ ← order.foldlM list (Vector.replicate triangles false)

def check (h : Hierarchy) (triangles : Nat) : Except BuildError Unit :=
  if nonempty : 0 < h.nodes.size then
    if h.order.size ≠ triangles then .error (.invalid (.orderLength h.order.size triangles))
    else do
      let s ← (Survey.start h nonempty).run
      if s.held ≠ h.order.size then throw (.invalid (.uncovered s.held h.order.size))
      if s.visits ≠ h.nodes.size then throw (.invalid (.unreached s.visits h.nodes.size))
      checkOrder h.order.toList triangles
  else .error (.invalid .noNodes)

end Sightline.Hierarchy
