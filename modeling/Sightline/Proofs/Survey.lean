import Sightline.Hierarchy.Check
import Sightline.Proofs.Plan

/-! What the visit of a check amounts to. The places that wait are the tops of plans, and the visit goes
well exactly when there are such plans whose further places are all fresh and whose leaves cover slots
that are all free. One visit takes the first plan apart: a leaf uses up its slots, an inner node uses
up the places of its two children and leaves their plans to wait. At the end only counts are compared,
and a list of so many different numbers below a bound is all of them. -/
namespace Sightline

def Unused (ok : Nat → Prop) (xs : List Nat) : Prop := xs.Nodup ∧ ∀ x ∈ xs, ok x

namespace Unused

theorem append {ok : Nat → Prop} {xs ys : List Nat} :
    Unused ok (xs ++ ys) ↔ Unused ok xs ∧ Unused (fun y => y ∉ xs ∧ ok y) ys := by
  simp only [Unused,List.nodup_append',List.mem_append]
  constructor
  · rintro ⟨⟨nx,ny,apart⟩,all⟩
    exact ⟨⟨nx,fun x m => all x (.inl m)⟩,ny,fun y m => ⟨fun n => apart n m,all y (.inr m)⟩⟩
  · rintro ⟨⟨nx,allX⟩,ny,allY⟩
    refine ⟨⟨nx,ny,fun x m n => (allY x n).1 m⟩,fun x m => ?_⟩
    rcases m with m | m
    · exact allX x m
    · exact (allY x m).2

theorem perm {ok : Nat → Prop} {xs ys : List Nat} (same : xs.Perm ys) :
    Unused ok xs ↔ Unused ok ys := by
  simp only [Unused,same.nodup_iff,same.mem_iff]

theorem congr {ok ok' : Nat → Prop} (same : ∀ x, ok x ↔ ok' x) {xs : List Nat} :
    Unused ok xs ↔ Unused ok' xs := by
  simp only [Unused,same]

theorem cons {ok : Nat → Prop} {x : Nat} {xs : List Nat} :
    Unused ok (x :: xs) ↔ ok x ∧ Unused (fun y => y ≠ x ∧ ok y) xs := by
  rw [← List.singleton_append,append]
  simp [Unused]

theorem all {xs : List Nat} {n : Nat} (unused : Unused (· < n) xs) (count : xs.length = n) :
    xs.Perm (List.range n) := by
  have inside : xs ⊆ List.range n := fun x m => List.mem_range.mpr (unused.2 x m)
  exact (unused.1.subperm inside).perm_of_length_le (Nat.le_of_eq (List.length_range.trans count.symm))

theorem ofPerm {xs : List Nat} {n : Nat} (same : xs.Perm (List.range n)) : Unused (· < n) xs :=
  (perm same).mpr ⟨List.nodup_range,fun _ => List.mem_range.mp⟩

end Unused

namespace Plan

def beneath (p : Plan) : List Nat := p.places.tail

theorem beneathInner (place : UInt32) (b : StoredBox) (l r : Plan) :
    (inner place b l r).beneath = l.places ++ r.places := by
  rw [beneath,placesInner,List.tail_cons]

theorem placesBeneath (p : Plan) : p.places = p.place.toNat :: p.beneath := by
  cases p with
  | leaf place b start count => rfl
  | inner place b l r => rw [beneathInner,placesInner]; rfl

theorem beneathChildren (place : UInt32) (b : StoredBox) (l r : Plan) (more : List Nat) :
    ((inner place b l r).beneath ++ more).Perm
      ([l.place.toNat,r.place.toNat] ++ (r.beneath ++ (l.beneath ++ more))) := by
  rw [beneathInner,placesBeneath l,placesBeneath r]
  simp only [List.cons_append,List.nil_append,List.append_assoc]
  exact .cons _ (List.perm_middle.trans (.cons _ (List.perm_append_comm_assoc _ _ _)))

end Plan

namespace Hierarchy
namespace Survey
variable {h : Hierarchy}

def Fresh (s : Survey h) (place : Nat) : Prop := s.seen[place]? = some false
def Free (s : Survey h) (slot : Nat) : Prop := s.covered[slot]? = some false

def taken (s : Survey h) (rest : List (Fin h.nodes.size × Nat)) : Survey h :=
  { s with pending := rest, visits := s.visits + 1 }

def entered (s : Survey h) (child : Fin h.nodes.size) (depth : Nat) : Survey h :=
  { s with seen := s.seen.setIfInBounds child true, pending := (child,depth) :: s.pending }

def filled (s : Survey h) (start count : UInt32) : Survey h :=
  { s with
    covered := (List.range' start.toNat count.toNat).foldl (fun c i => c.setIfInBounds i true)
      s.covered
    held := s.held + count.toNat }

theorem setFree {n : Nat} (marks : Vector Bool n) (i slot : Nat) :
    (marks.setIfInBounds i true)[slot]? = some false ↔ slot ≠ i ∧ marks[slot]? = some false := by
  rw [Vector.getElem?_setIfInBounds]
  by_cases same : i = slot
  · subst same
    simp
  · simp [same,Ne.symm same]

theorem enteredFresh (s : Survey h) (child : Fin h.nodes.size) (depth place : Nat) :
    (s.entered child depth).Fresh place ↔ place ≠ child.val ∧ s.Fresh place := setFree _ _ _

theorem markedFree {n : Nat} (slots : List Nat) (covered : Vector Bool n) (slot : Nat) :
    (slots.foldl (fun c i => c.setIfInBounds i true) covered)[slot]? = some false ↔
      slot ∉ slots ∧ covered[slot]? = some false := by
  induction slots generalizing covered with
  | nil => simp
  | cons i rest ih =>
    rw [List.foldl_cons,ih,setFree,List.mem_cons,not_or,and_left_comm,and_assoc]

theorem filledFree (s : Survey h) (start count : UInt32) (slot : Nat) :
    (s.filled start count).Free slot ↔
      slot ∉ List.range' start.toNat count.toNat ∧ s.Free slot := markedFree _ _ _

def Gives {α ε : Type} {ok : α → Prop} (result : Except ε { t : α // ok t }) (u : α) : Prop :=
  ∃ t, result = .ok t ∧ t.val = u

theorem givesError {α ε : Type} {ok : α → Prop} (e : ε) (u : α) :
    ¬Gives (.error e : Except ε { t : α // ok t }) u := fun ⟨_,bad,_⟩ => nomatch bad

theorem givesOk {α ε : Type} {ok : α → Prop} {t : { t : α // ok t }} {u : α} :
    Gives (.ok t : Except ε _) u ↔ u = t.val := by
  constructor
  · rintro ⟨v,same,rfl⟩
    exact congrArg _ (Except.ok.inj same).symm
  · rintro rfl
    exact ⟨t,rfl,rfl⟩

theorem setMark {n : Nat} (marks : Vector Bool n) (i : Fin n) :
    mark marks i = marks.setIfInBounds i true := by
  ext j below
  rw [mark,Vector.getElem_set,Vector.getElem_setIfInBounds]

theorem slotsNumbered {start count : UInt32} (inside : start.toNat + count.toNat ≤ h.order.size) :
    (slots start count inside).map Fin.val = List.range' start.toNat count.toNat := by
  refine List.ext_getElem (by simp [slots]) fun i here there => ?_
  simp [slots]

theorem slotsMarked {start count : UInt32} (inside : start.toNat + count.toNat ≤ h.order.size)
    (covered : Vector Bool h.order.size) :
    (slots start count inside).foldl mark covered =
      (List.range' start.toNat count.toNat).foldl (fun c i => c.setIfInBounds i true) covered := by
  rw [← slotsNumbered inside,List.foldl_map]
  congr
  funext marks i
  exact setMark marks i

theorem enterGives {s u : Survey h} {index : Fin h.nodes.size} {child : UInt32} {depth : Nat} :
    Gives (s.enter index child depth) u ↔ child.toNat ≠ index.val ∧
      ∃ inside : child.toNat < h.nodes.size, s.Fresh child.toNat ∧
        u = s.entered ⟨child.toNat,inside⟩ depth := by
  unfold enter
  by_cases own : child.toNat = index.val
  · simp [own,givesError]
  · rw [if_neg own]
    by_cases inside : child.toNat < h.nodes.size
    · rw [dif_pos inside]
      by_cases fresh : s.seen[child.toNat] = false
      · rw [dif_pos fresh,givesOk]
        simp [own,inside,Fresh,fresh,entered,setMark]
      · rw [dif_neg fresh]
        simp [inside,Fresh,fresh,givesError]
    · simp [inside,givesError]

theorem coverGives {s u : Survey h} {index : Fin h.nodes.size} {start count : UInt32} :
    Gives (s.cover index start count) u ↔ start.toNat + count.toNat ≤ h.order.size ∧
      (∀ slot ∈ List.range' start.toNat count.toNat, s.Free slot) ∧ u = s.filled start count := by
  unfold cover
  by_cases inside : start.toNat + count.toNat ≤ h.order.size
  · rw [dif_pos inside,and_iff_right inside,← slotsNumbered inside,List.forall_mem_map]
    have free (slot : Fin h.order.size) : s.Free slot.val ↔ s.covered[slot] = false := by simp [Free]
    simp only [free]
    split
    · rename_i slot overlap
      have marked := List.find?_some overlap
      refine ⟨fun bad => (givesError _ _ bad).elim,fun ok => ?_⟩
      rw [ok.1 slot (List.mem_of_find?_eq_some overlap)] at marked
      contradiction
    · rename_i none
      rw [List.find?_eq_none] at none
      rw [givesOk,and_iff_right fun slot member => Bool.eq_false_iff.mpr (none slot member),filled,slotsMarked]
  · simp [inside,givesError]

theorem visitLeaf {s u : Survey h} {index : Fin h.nodes.size} {depth : Nat} {node : Node}
    {start count : UInt32} (there : h.nodes[index.val]? = some node) (kind : node.kind = .leaf start count) :
    Gives (s.visit index depth) u ↔ depth < stackCapacity ∧ Gives (s.cover index start count) u := by
  obtain ⟨_,rfl⟩ := Array.getElem?_eq_some_iff.mp there
  have kind : h.nodes[index].kind = .leaf start count := kind
  unfold visit
  by_cases deep : depth ≥ stackCapacity
  · simp [deep,Nat.not_lt.mpr deep,givesError]
  · rw [if_neg deep,kind,and_iff_right (Nat.lt_of_not_le deep)]
    dsimp only
    cases s.cover index start count with
    | error flaw => simp [givesError]
    | ok t => rw [givesOk,givesOk]

theorem visitInner {s u : Survey h} {index : Fin h.nodes.size} {depth : Nat} {node : Node}
    {left right : UInt32} (there : h.nodes[index.val]? = some node) (kind : node.kind = .inner left right) :
    Gives (s.visit index depth) u ↔ depth < stackCapacity ∧
      ∃ t, Gives (s.enter index left (depth + 1)) t ∧ Gives (t.enter index right (depth + 1)) u := by
  obtain ⟨_,rfl⟩ := Array.getElem?_eq_some_iff.mp there
  have kind : h.nodes[index].kind = .inner left right := kind
  unfold visit
  by_cases deep : depth ≥ stackCapacity
  · simp [deep,Nat.not_lt.mpr deep,givesError]
  · rw [if_neg deep,kind,and_iff_right (Nat.lt_of_not_le deep)]
    dsimp only
    cases s.enter index left (depth + 1) with
    | error flaw => simp [givesError]
    | ok t =>
      simp only [givesOk,exists_eq_left]
      cases t.val.enter index right (depth + 1) with
      | error flaw => simp [givesError]
      | ok v => rw [givesOk,givesOk]

theorem nextGives {s u : Survey h} {index : Fin h.nodes.size} {depth : Nat} {rest listed} :
    Gives (s.next index depth rest listed) u ↔ Gives ((s.taken rest).visit index depth) u := by
  show Gives (match (s.taken rest).visit index depth with
    | .error e => .error e
    | .ok t => .ok ⟨t.val,_⟩) u ↔ _
  cases (s.taken rest).visit index depth with
  | error e => simp [givesError]
  | ok t => rw [givesOk,givesOk]

structure Waits (w : Fin h.nodes.size × Nat) (p : Plan) : Prop where
  place : p.place.toNat = w.1.val
  held : Holds h p
  shallow : w.2 + p.depth < stackCapacity

/-- All that is still to be visited goes by these plans, and none of it was met before. -/
structure Ahead (s : Survey h) (ps : List Plan) : Prop where
  waits : List.Forall₂ Waits s.pending ps
  places : Unused s.Fresh (ps.flatMap Plan.beneath)
  slots : Unused s.Free (ps.flatMap Plan.slots)

/-- What every visit keeps: a place that waits is marked already and can be named by a word. -/
structure Steady (s : Survey h) : Prop where
  marked : ∀ w ∈ s.pending, ¬s.Fresh w.1.val
  named : ∀ w ∈ s.pending, w.1.val < UInt32.size

theorem startSteady (nonempty : 0 < h.nodes.size) : (start h nonempty).Steady where
  marked w member := by
    cases List.mem_singleton.mp member
    simp [Fresh,start]
  named w member := by
    cases List.mem_singleton.mp member
    exact Nat.zero_lt_succ _

theorem takenSteady {s : Survey h} (steady : s.Steady) {w rest} (listed : s.pending = w :: rest) :
    (s.taken rest).Steady where
  marked v member := steady.marked v (by rw [listed]; exact List.mem_cons_of_mem _ member)
  named v member := steady.named v (by rw [listed]; exact List.mem_cons_of_mem _ member)

theorem filledSteady {s : Survey h} (steady : s.Steady) (start count : UInt32) :
    (s.filled start count).Steady where
  marked := steady.marked
  named := steady.named

theorem enteredSteady {s : Survey h} (steady : s.Steady) (child : UInt32)
    (inside : child.toNat < h.nodes.size) (depth : Nat) :
    (s.entered ⟨child.toNat,inside⟩ depth).Steady where
  marked v member fresh := by
    rw [enteredFresh] at fresh
    rcases List.mem_cons.mp member with rfl | member
    · exact fresh.1 rfl
    · exact steady.marked v member fresh.2
  named v member := by
    rcases List.mem_cons.mp member with rfl | member
    · exact child.toNat_lt
    · exact steady.named v member

theorem nodeWaiting {w : Fin h.nodes.size} {place : UInt32} (named : place.toNat = w.val) :
    h.node? place = some h.nodes[w] := by
  simp [node?,named]

theorem aheadLeaf {s : Survey h} {w rest} (listed : s.pending = w :: rest)
    {start count : UInt32} (kind : h.nodes[w.1].kind = .leaf start count) {place : UInt32}
    (named : place.toNat = w.1.val) {ps : List Plan} :
    s.Ahead (.leaf place h.nodes[w.1].stored start count :: ps) ↔
      w.2 < stackCapacity ∧ start.toNat + count.toNat ≤ h.order.size ∧
      (∀ slot ∈ List.range' start.toNat count.toNat, s.Free slot) ∧
      ((s.taken rest).filled start count).Ahead ps := by
  have slots : Unused s.Free ((Plan.leaf place h.nodes[w.1].stored start count :: ps).flatMap
      Plan.slots) ↔ (∀ slot ∈ List.range' start.toNat count.toNat, s.Free slot) ∧
        Unused ((s.taken rest).filled start count).Free (ps.flatMap Plan.slots) := by
    rw [List.flatMap_cons,Plan.slotsLeaf,Unused.append]
    exact and_congr (and_iff_right List.nodup_range') (Unused.congr fun _ => (filledFree ..).symm)
  constructor
  · intro ahead
    have waits := ahead.waits
    rw [listed,List.forall₂_cons] at waits
    obtain ⟨_,_,_,_,inside⟩ := heldLeaf.mp waits.1.held
    obtain ⟨free,later⟩ := slots.mp ahead.slots
    exact ⟨waits.1.shallow,inside,free,waits.2,ahead.places,later⟩
  · rintro ⟨shallow,inside,free,ahead⟩
    refine ⟨?_,ahead.places,slots.mpr ⟨free,ahead.slots⟩⟩
    rw [listed,List.forall₂_cons]
    exact ⟨⟨named,.leaf (nodeWaiting named) kind inside,shallow⟩,ahead.waits⟩

theorem aheadInner {s : Survey h} {w rest} (listed : s.pending = w :: rest)
    {l r : Plan} (kind : h.nodes[w.1].kind = .inner l.place r.place) {place : UInt32}
    (named : place.toNat = w.1.val) {ps : List Plan} :
    s.Ahead (.inner place h.nodes[w.1].stored l r :: ps) ↔
      ∃ (insideL : l.place.toNat < h.nodes.size) (insideR : r.place.toNat < h.nodes.size),
        Unused s.Fresh [l.place.toNat,r.place.toNat] ∧
        (((s.taken rest).entered ⟨_,insideL⟩ (w.2 + 1)).entered ⟨_,insideR⟩ (w.2 + 1)).Ahead
          (r :: l :: ps) := by
  -- what is left to use up is the same before and after the two children are marked
  have places (insideL : l.place.toNat < h.nodes.size) (insideR : r.place.toNat < h.nodes.size) :
      Unused s.Fresh ((Plan.inner place h.nodes[w.1].stored l r :: ps).flatMap Plan.beneath) ↔
      Unused s.Fresh [l.place.toNat,r.place.toNat] ∧ Unused (((s.taken rest).entered ⟨_,insideL⟩
        (w.2 + 1)).entered ⟨_,insideR⟩ (w.2 + 1)).Fresh ((r :: l :: ps).flatMap Plan.beneath) := by
    rw [List.flatMap_cons,Unused.perm (Plan.beneathChildren ..),Unused.append]
    refine and_congr Iff.rfl (Unused.congr fun x => ?_)
    rw [enteredFresh,enteredFresh]
    simp only [List.mem_cons,List.not_mem_nil]
    tauto
  have slots : ((Plan.inner place h.nodes[w.1].stored l r :: ps).flatMap Plan.slots).Perm
      ((r :: l :: ps).flatMap Plan.slots) := by
    simp only [List.flatMap_cons,Plan.slotsInner,List.append_assoc]
    exact List.perm_append_comm_assoc _ _ _
  constructor
  · intro ahead
    have waits := ahead.waits
    rw [listed,List.forall₂_cons] at waits
    obtain ⟨_,_,_,_,left,right⟩ := heldInner.mp waits.1.held
    obtain ⟨_,atL⟩ := heldNode left
    obtain ⟨_,atR⟩ := heldNode right
    have insideL := nodeInside atL
    have insideR := nodeInside atR
    obtain ⟨now,later⟩ := (places insideL insideR).mp ahead.places
    have shallow := waits.1.shallow
    simp only [Plan.depth] at shallow
    refine ⟨insideL,insideR,now,?_,later,(Unused.perm slots).mp ahead.slots⟩
    exact .cons ⟨rfl,right,by dsimp only; omega⟩ (.cons ⟨rfl,left,by dsimp only; omega⟩ waits.2)
  · rintro ⟨insideL,insideR,now,ahead⟩
    refine ⟨?_,(places insideL insideR).mpr ⟨now,ahead.places⟩,(Unused.perm slots).mpr ahead.slots⟩
    have waits := ahead.waits
    simp only [entered,taken,List.forall₂_cons] at waits
    obtain ⟨right,left,waits⟩ := waits
    have shallowL := left.shallow
    have shallowR := right.shallow
    rw [listed,List.forall₂_cons]
    refine ⟨⟨named,.inner (nodeWaiting named) kind left.held right.held,?_⟩,waits⟩
    simp only [Plan.depth] at *
    omega

theorem runNext {s : Survey h} {index : Fin h.nodes.size} {depth : Nat} {rest listed u}
    (next : s.next index depth rest listed = .ok u) : s.run = u.val.run := by
  rw [run]
  split
  · rename_i empty
    rw [listed] at empty
    contradiction
  · rename_i again
    cases listed.symm.trans again
    rw [next]

theorem runFails {s : Survey h} {index : Fin h.nodes.size} {depth : Nat} {rest listed e}
    (next : s.next index depth rest listed = .error e) : s.run = .error e := by
  rw [run]
  split
  · rename_i empty
    rw [listed] at empty
    contradiction
  · rename_i again
    cases listed.symm.trans again
    rw [next]

theorem runDone {s : Survey h} (empty : s.pending = []) : s.run = .ok s := by
  rw [run]
  split
  · rfl
  · rename_i listed
    rw [empty] at listed
    contradiction

theorem nextLeaf {s u : Survey h} {w rest} (listed : s.pending = w :: rest) {start count : UInt32}
    (kind : h.nodes[w.1].kind = .leaf start count) :
    Gives (s.next w.1 w.2 rest listed) u ↔ w.2 < stackCapacity ∧
      start.toNat + count.toNat ≤ h.order.size ∧
      (∀ slot ∈ List.range' start.toNat count.toNat, s.Free slot) ∧
        u = (s.taken rest).filled start count := by
  rw [nextGives,visitLeaf (Array.getElem?_eq_getElem w.1.isLt) kind,coverGives]
  rfl

theorem nextInner {s u : Survey h} (steady : s.Steady) {w rest} (listed : s.pending = w :: rest)
    {left right : UInt32} (kind : h.nodes[w.1].kind = .inner left right) :
    Gives (s.next w.1 w.2 rest listed) u ↔ w.2 < stackCapacity ∧
      ∃ (insideL : left.toNat < h.nodes.size) (insideR : right.toNat < h.nodes.size),
        Unused s.Fresh [left.toNat,right.toNat] ∧
        u = ((s.taken rest).entered ⟨_,insideL⟩ (w.2 + 1)).entered ⟨_,insideR⟩ (w.2 + 1) := by
  have top : ¬s.Fresh w.1.val := steady.marked w (by rw [listed]; exact List.mem_cons_self)
  rw [nextGives,visitInner (Array.getElem?_eq_getElem w.1.isLt) kind]
  simp only [enterGives]
  refine and_congr Iff.rfl ⟨?_,?_⟩
  · rintro ⟨t,⟨_,insideL,freshL,rfl⟩,_,insideR,freshR,value⟩
    rw [enteredFresh] at freshR
    refine ⟨insideL,insideR,⟨by simpa using Ne.symm freshR.1,?_⟩,value⟩
    intro place member
    simp only [List.mem_cons,List.not_mem_nil,or_false] at member
    rcases member with rfl | rfl
    · exact freshL
    · exact freshR.2
  · rintro ⟨insideL,insideR,⟨differ,fresh⟩,value⟩
    have freshL := fresh left.toNat (by simp)
    have freshR := fresh right.toNat (by simp)
    have differ : right.toNat ≠ left.toNat := by simpa using Ne.symm (by simpa using differ)
    refine ⟨_,⟨fun same => top (same ▸ freshL),insideL,freshL,rfl⟩,
      fun same => top (same ▸ freshR),insideR,?_,value⟩
    exact (enteredFresh ..).mpr ⟨differ,freshR⟩

theorem stepLeaf {s : Survey h} {w rest} (listed : s.pending = w :: rest)
    {start count : UInt32} (kind : h.nodes[w.1].kind = .leaf start count) {place : UInt32}
    (named : place.toNat = w.1.val) {ps : List Plan} :
    s.Ahead (.leaf place h.nodes[w.1].stored start count :: ps) ↔
      ∃ u, Gives (s.next w.1 w.2 rest listed) u ∧ u.Ahead ps := by
  rw [aheadLeaf listed kind named]
  simp only [nextLeaf listed kind]
  constructor
  · rintro ⟨shallow,inside,free,ahead⟩
    exact ⟨_,⟨shallow,inside,free,rfl⟩,ahead⟩
  · rintro ⟨_,⟨shallow,inside,free,rfl⟩,ahead⟩
    exact ⟨shallow,inside,free,ahead⟩

theorem stepInner {s : Survey h} (steady : s.Steady) {w rest} (listed : s.pending = w :: rest)
    {l r : Plan} (kind : h.nodes[w.1].kind = .inner l.place r.place) {place : UInt32}
    (named : place.toNat = w.1.val) {ps : List Plan} :
    s.Ahead (.inner place h.nodes[w.1].stored l r :: ps) ↔
      ∃ u, Gives (s.next w.1 w.2 rest listed) u ∧ u.Ahead (r :: l :: ps) := by
  rw [aheadInner listed kind named]
  simp only [nextInner steady listed kind]
  constructor
  · rintro ⟨insideL,insideR,fresh,ahead⟩
    have shallow := (List.forall₂_cons.mp ahead.waits).1.shallow
    exact ⟨_,⟨by dsimp only at shallow; omega,insideL,insideR,fresh,rfl⟩,ahead⟩
  · rintro ⟨_,⟨_,insideL,insideR,fresh,rfl⟩,ahead⟩
    exact ⟨insideL,insideR,fresh,ahead⟩

theorem nextSteady {s u : Survey h} (steady : s.Steady) {w rest} (listed : s.pending = w :: rest)
    (next : Gives (s.next w.1 w.2 rest listed) u) : u.Steady := by
  cases kind : h.nodes[w.1].kind with
  | leaf start count =>
    obtain ⟨_,_,_,rfl⟩ := (nextLeaf listed kind).mp next
    exact filledSteady (takenSteady steady listed) start count
  | inner left right =>
    obtain ⟨_,_,_,_,rfl⟩ := (nextInner steady listed kind).mp next
    exact enteredSteady (enteredSteady (takenSteady steady listed) left _ _) right _ _

def Counted (s : Survey h) (ps : List Plan) (t : Survey h) : Prop :=
  t.visits = s.visits + (ps.flatMap Plan.parts).length ∧
    t.held = s.held + (ps.flatMap Plan.slots).length

theorem countedLeaf {s u t : Survey h} {w rest} (listed : s.pending = w :: rest)
    {start count : UInt32} (kind : h.nodes[w.1].kind = .leaf start count)
    (next : Gives (s.next w.1 w.2 rest listed) u) {place : UInt32} {b : StoredBox} {ps : List Plan} :
    u.Counted ps t ↔ s.Counted (.leaf place b start count :: ps) t := by
  obtain ⟨_,_,_,rfl⟩ := (nextLeaf listed kind).mp next
  simp only [Counted,List.flatMap_cons,List.length_append,Plan.slotsLeaf,List.length_range',
    Plan.parts,List.length_singleton,filled,taken]
  omega

theorem countedInner {s u t : Survey h} (steady : s.Steady) {w rest}
    (listed : s.pending = w :: rest) {l r : Plan}
    (kind : h.nodes[w.1].kind = .inner l.place r.place)
    (next : Gives (s.next w.1 w.2 rest listed) u) {place : UInt32} {b : StoredBox} {ps : List Plan} :
    u.Counted (r :: l :: ps) t ↔ s.Counted (.inner place b l r :: ps) t := by
  obtain ⟨_,_,_,_,rfl⟩ := (nextInner steady listed kind).mp next
  simp only [Counted,List.flatMap_cons,List.length_append,Plan.slotsInner,Plan.parts,
    List.length_cons,entered,taken]
  omega

theorem aheadNext {s : Survey h} (steady : s.Steady) {w rest} (listed : s.pending = w :: rest)
    {ps : List Plan} (ahead : s.Ahead ps) :
    ∃ u qs, Gives (s.next w.1 w.2 rest listed) u ∧ u.Ahead qs ∧
      ∀ t, u.Counted qs t → s.Counted ps t := by
  obtain ⟨p,ps,waits,_,rfl⟩ := List.forall₂_cons_left_iff.mp (listed ▸ ahead.waits)
  have named := waits.place
  cases p with
  | leaf place b start count =>
    obtain ⟨_,found,rfl,kind,_⟩ := heldLeaf.mp waits.held
    obtain rfl := Option.some.inj (found.symm.trans (nodeWaiting named))
    obtain ⟨u,gives,later⟩ := (stepLeaf listed kind named).mp ahead
    exact ⟨u,_,gives,later,fun t => (countedLeaf listed kind gives).mp⟩
  | inner place b l r =>
    obtain ⟨_,found,rfl,kind,_⟩ := heldInner.mp waits.held
    obtain rfl := Option.some.inj (found.symm.trans (nodeWaiting named))
    obtain ⟨u,gives,later⟩ := (stepInner steady listed kind named).mp ahead
    exact ⟨u,_,gives,later,fun t => (countedInner steady listed kind gives).mp⟩

theorem nextAhead {s u : Survey h} (steady : s.Steady) {w rest} (listed : s.pending = w :: rest)
    (next : Gives (s.next w.1 w.2 rest listed) u) {ps : List Plan} (ahead : u.Ahead ps) :
    ∃ qs, s.Ahead qs ∧ ∀ t, u.Counted ps t → s.Counted qs t := by
  have named : w.1.val.toUInt32.toNat = w.1.val :=
    Nat.mod_eq_of_lt (steady.named w (by rw [listed]; exact List.mem_cons_self))
  cases kind : h.nodes[w.1].kind with
  | leaf start count =>
    exact ⟨_,(stepLeaf listed kind named).mpr ⟨u,next,ahead⟩,
      fun t => (countedLeaf listed kind next).mp⟩
  | inner left right =>
    -- the two plans on top are those of the children just put there
    obtain ⟨_,_,_,_,value⟩ := (nextInner steady listed kind).mp next
    obtain ⟨r,qs,waitsR,waits,rfl⟩ := List.forall₂_cons_left_iff.mp (value ▸ ahead.waits)
    obtain ⟨l,qs,waitsL,_,rfl⟩ := List.forall₂_cons_left_iff.mp waits
    have nameL : l.place = left := UInt32.toNat_inj.mp waitsL.place
    have nameR : r.place = right := UInt32.toNat_inj.mp waitsR.place
    rw [← nameL,← nameR] at kind
    exact ⟨_,(stepInner steady listed kind named).mpr ⟨u,next,ahead⟩,
      fun t => (countedInner steady listed kind next).mp⟩

/- The plans are put together backwards, from the end of the visit, where none is left. -/
theorem runAhead (s : Survey h) (steady : s.Steady) {t} (done : s.run = .ok t) :
    ∃ ps, s.Ahead ps ∧ s.Counted ps t := by
  induction s using run.induct with
  | case1 s empty =>
    rw [runDone empty] at done
    cases done
    exact ⟨[],⟨by rw [empty]; exact .nil,⟨.nil,nofun⟩,⟨.nil,nofun⟩⟩,rfl,rfl⟩
  | case2 s index depth rest listed e failed =>
    rw [runFails failed] at done
    contradiction
  | case3 s index depth rest listed u next ih =>
    rw [runNext next] at done
    have gives : Gives (s.next index depth rest listed) u.val := ⟨u,next,rfl⟩
    obtain ⟨ps,ahead,counted⟩ := ih (nextSteady steady listed gives) done
    obtain ⟨qs,before,more⟩ := nextAhead steady listed gives ahead
    exact ⟨qs,before,more t counted⟩

theorem aheadRun (s : Survey h) (steady : s.Steady) {ps : List Plan} (ahead : s.Ahead ps) :
    ∃ t, s.run = .ok t ∧ s.Counted ps t := by
  induction s using run.induct generalizing ps with
  | case1 s empty =>
    have waits := ahead.waits
    rw [empty,List.forall₂_nil_left_iff] at waits
    subst waits
    exact ⟨s,runDone empty,rfl,rfl⟩
  | case2 s index depth rest listed e failed =>
    obtain ⟨u,qs,⟨_,next,_⟩,_⟩ := aheadNext steady listed ahead
    cases failed.symm.trans next
  | case3 s index depth rest listed u next ih =>
    obtain ⟨v,qs,⟨_,again,rfl⟩,later,more⟩ := aheadNext steady listed ahead
    cases next.symm.trans again
    obtain ⟨t,done,counted⟩ := ih (nextSteady steady listed ⟨u,next,rfl⟩) later
    exact ⟨t,(runNext next).trans done,more t counted⟩

end Survey
end Hierarchy
end Sightline
