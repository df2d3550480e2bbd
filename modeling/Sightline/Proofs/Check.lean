import Sightline.Proofs.Survey

/-! What a check accepts. A hierarchy passes when some plan, held from the first node on, uses every
place and every slot once and is not too deep; the proofs about searching start from that plan. Said
of the nodes alone, the turns from the first node stay inside, lead to every node in exactly one way
that is short enough, and the leaves cut the triangle list without gap or overlap. The two are the
same, and whatever is not accepted is refused for its depth or for a flaw. -/
namespace Sightline.Hierarchy

/-- The plan that a check looks for: from the first node it reaches every node once, and its leaves
cover every slot of the triangle list once. -/
structure Complete (h : Hierarchy) (p : Plan) : Prop where
  root : p.place = 0
  held : h.Holds p
  shallow : p.depth < stackCapacity
  places : p.places.Perm (List.range h.nodes.size)
  slots : p.slots.Perm (List.range h.order.size)

theorem Complete.count {h : Hierarchy} {p : Plan} (complete : h.Complete p) :
    p.parts.length = h.nodes.size := by
  rw [← p.placesLength,complete.places.length_eq,List.length_range]

theorem partComplete {h : Hierarchy} {p q : Plan} (complete : h.Complete p) (part : q ∈ p.parts) :
    h.treeFrom h.nodes.size q.place = some (q.tree h.order) := by
  obtain ⟨path,found⟩ := Plan.memParts.mp part
  have below := Plan.partAtDepth found
  have enough := complete.count ▸ p.depthParts
  exact treeHeld (partsHeld complete.held q part) (by omega)

theorem treeComplete {h : Hierarchy} {p : Plan} (complete : h.Complete p) :
    h.tree? = some (p.tree h.order) := by
  have found := partComplete complete p.selfPart
  rwa [complete.root] at found

namespace Survey
variable {h : Hierarchy}

theorem startFresh (nonempty : 0 < h.nodes.size) (place : Nat) :
    (start h nonempty).Fresh place ↔ place ≠ 0 ∧ place < h.nodes.size := by
  simp only [Fresh,start,Vector.getElem?_set,Vector.getElem?_replicate]
  by_cases root : place = 0
  · simp [root]
  · simp [root,Ne.symm root]

theorem startFree (nonempty : 0 < h.nodes.size) (slot : Nat) :
    (start h nonempty).Free slot ↔ slot < h.order.size := by
  simp [Free,start,Vector.getElem?_replicate]

theorem startAhead (nonempty : 0 < h.nodes.size) (p : Plan) :
    (start h nonempty).Ahead [p] ↔ p.place = 0 ∧ h.Holds p ∧ p.depth < stackCapacity ∧
      Unused (· < h.nodes.size) p.places ∧ Unused (· < h.order.size) p.slots := by
  have root : p.place.toNat = 0 ↔ p.place = 0 := @UInt32.toNat_inj p.place 0
  constructor
  · intro ahead
    obtain ⟨waits,_⟩ := List.forall₂_cons.mp ahead.waits
    have places := ahead.places
    have slots := ahead.slots
    simp only [List.flatMap_singleton,Unused.congr (startFresh nonempty)] at places
    simp only [List.flatMap_singleton,Unused.congr (startFree nonempty)] at slots
    refine ⟨root.mp waits.place,waits.held,by simpa using waits.shallow,?_,slots⟩
    rw [Plan.placesBeneath,Unused.cons,waits.place]
    exact ⟨nonempty,places⟩
  · rintro ⟨top,held,shallow,places,slots⟩
    rw [Plan.placesBeneath,Unused.cons,root.mpr top] at places
    refine ⟨.cons ⟨root.mpr top,held,by simpa using shallow⟩ .nil,?_,?_⟩
    · simp only [List.flatMap_singleton,Unused.congr (startFresh nonempty)]
      exact places.2
    · simpa only [List.flatMap_singleton,Unused.congr (startFree nonempty)] using slots

theorem runComplete (nonempty : 0 < h.nodes.size) :
    (∃ t, (start h nonempty).run = .ok t ∧ t.held = h.order.size ∧ t.visits = h.nodes.size) ↔
      ∃ p, h.Complete p := by
  constructor
  · rintro ⟨t,done,held,visits⟩
    obtain ⟨ps,ahead,counted⟩ := runAhead _ (startSteady nonempty) done
    obtain ⟨p,qs,_,last,rfl⟩ := List.forall₂_cons_left_iff.mp ahead.waits
    cases last
    obtain ⟨root,holds,shallow,places,slots⟩ := (startAhead nonempty p).mp ahead
    simp only [Counted,List.flatMap_singleton,start,Nat.zero_add] at counted
    rw [visits,held] at counted
    exact ⟨p,root,holds,shallow,places.all (p.placesLength.trans counted.1.symm),
      slots.all counted.2.symm⟩
  · rintro ⟨p,complete⟩
    obtain ⟨t,done,counted⟩ := aheadRun _ (startSteady nonempty) ((startAhead nonempty p).mpr
      ⟨complete.root,complete.held,complete.shallow,.ofPerm complete.places,.ofPerm complete.slots⟩)
    have slots := complete.slots.length_eq
    simp only [Counted,List.flatMap_singleton,start,Nat.zero_add] at counted
    rw [List.length_range] at slots
    exact ⟨t,done,counted.2.trans slots,counted.1.trans complete.count⟩

end Survey

section
variable {triangles : Nat}

theorem listFree {named : Vector Bool triangles} {triangle : UInt32}
    (free : named[triangle.toNat]? = some false) :
    list named triangle = .ok (named.setIfInBounds triangle.toNat true) := by
  obtain ⟨inside,unnamed⟩ := Vector.getElem?_eq_some_iff.mp free
  rw [list,dif_pos inside,unnamed,Survey.setMark]
  rfl

theorem listTaken {named : Vector Bool triangles} {triangle : UInt32}
    (taken : named[triangle.toNat]? ≠ some false) : ∃ e, list named triangle = .error e := by
  unfold list
  split
  · rename_i inside
    rw [Vector.getElem?_eq_getElem inside,ne_eq,Option.some.injEq,Bool.not_eq_false] at taken
    rw [taken]
    exact ⟨_,rfl⟩
  · exact ⟨_,rfl⟩

theorem listedOnce (order : List UInt32) (named : Vector Bool triangles) :
    (∃ final, order.foldlM list named = .ok final) ↔
      Unused (fun i => named[i]? = some false) (order.map UInt32.toNat) := by
  induction order generalizing named with
  | nil => simp [Unused,pure,Except.pure]
  | cons triangle rest ih =>
    rw [List.map_cons,Unused.cons,List.foldlM_cons]
    by_cases free : named[triangle.toNat]? = some false
    · rw [listFree free,and_iff_right free]
      exact (ih _).trans (Unused.congr fun _ => Survey.setFree ..)
    · obtain ⟨e,failed⟩ := listTaken free
      rw [failed]
      refine ⟨?_,fun ok => (free ok.1).elim⟩
      rintro ⟨final,bad⟩
      contradiction

end

theorem orderOk (order : List UInt32) (triangles : Nat) :
    checkOrder order triangles = .ok () ↔ Unused (· < triangles) (order.map UInt32.toNat) := by
  have blank (i : Nat) : (Vector.replicate triangles false)[i]? = some false ↔ i < triangles := by
    simp [Vector.getElem?_replicate]
  rw [← Unused.congr blank,← listedOnce]
  unfold checkOrder
  cases order.foldlM list (Vector.replicate triangles false) with
  | error e => exact ⟨fun bad => (nomatch bad),fun ⟨_,bad⟩ => (nomatch bad)⟩
  | ok final => exact ⟨fun _ => ⟨final,rfl⟩,fun _ => rfl⟩

theorem checkStages (h : Hierarchy) (triangles : Nat) :
    h.check triangles = .ok () ↔ ∃ nonempty : 0 < h.nodes.size, h.order.size = triangles ∧
      (∃ t, (Survey.start h nonempty).run = .ok t ∧ t.held = h.order.size ∧
        t.visits = h.nodes.size) ∧ checkOrder h.order.toList triangles = .ok () := by
  unfold check
  by_cases nonempty : 0 < h.nodes.size
  · rw [dif_pos nonempty]
    simp only [nonempty,exists_true_left]
    by_cases size : h.order.size = triangles
    · rw [if_neg (not_not.mpr size),and_iff_right size]
      cases (Survey.start h nonempty).run with
      | error e => exact ⟨fun bad => (nomatch bad),fun ⟨⟨_,bad,_⟩,_⟩ => (nomatch bad)⟩
      | ok t =>
        by_cases held : t.held = h.order.size
        · by_cases visits : t.visits = h.nodes.size
          · simp [bind,Except.bind,held,visits]
          · simp [bind,Except.bind,throw,throwThe,MonadExceptOf.throw,held,visits]
        · simp [bind,Except.bind,throw,throwThe,MonadExceptOf.throw,held]
    · simp [size]
  · simp [nonempty]

theorem checkComplete (h : Hierarchy) (triangles : Nat) :
    h.check triangles = .ok () ↔ (∃ p, h.Complete p) ∧
      (h.order.toList.map UInt32.toNat).Perm (List.range triangles) := by
  rw [checkStages,orderOk]
  constructor
  · rintro ⟨nonempty,size,visited,listed⟩
    refine ⟨(Survey.runComplete nonempty).mp visited,listed.all ?_⟩
    rw [List.length_map,Array.length_toList,size]
  · rintro ⟨⟨p,complete⟩,listed⟩
    have size := listed.length_eq
    rw [List.length_map,Array.length_toList,List.length_range] at size
    have nonempty : 0 < h.nodes.size := by
      obtain ⟨_,found⟩ := heldNode complete.held
      have := nodeInside found
      omega
    exact ⟨nonempty,size,(Survey.runComplete nonempty).mpr ⟨p,complete⟩,.ofPerm listed⟩

def Covers (h : Hierarchy) (place slot : Nat) : Prop :=
  ∃ node start count, h.nodes[place]? = some node ∧ node.kind = .leaf start count ∧
    start.toNat ≤ slot ∧ slot < start.toNat + count.toNat

structure WellFormed (h : Hierarchy) (triangles : Nat) : Prop where
  nonempty : 0 < h.nodes.size
  inside : ∀ path place, h.follow 0 path = some place → place.toNat < h.nodes.size
  once : ∀ place < h.nodes.size, ∃! path, (h.follow 0 path).map UInt32.toNat = some place
  shallow : ∀ path place, h.follow 0 path = some place → path.length ≤ 31
  ranges : ∀ node ∈ h.nodes, ∀ start count, node.kind = .leaf start count →
    start.toNat + count.toNat ≤ h.order.size
  disjoint : ∀ slot a b, h.Covers a slot → h.Covers b slot → a = b
  covered : ∀ slot < h.order.size, ∃ place, h.Covers place slot
  length : h.order.size = triangles
  listed : (h.order.toList.map UInt32.toNat).Perm (List.range triangles)

theorem rangeHeld {h : Hierarchy} {p : Plan} (held : h.Holds p) {node : Node}
    {start count : UInt32} (found : h.node? p.place = some node)
    (kind : node.kind = .leaf start count) : start.toNat + count.toNat ≤ h.order.size := by
  cases held with
  | leaf found' kind' inside =>
    cases Option.some.inj (found.symm.trans found')
    cases kind.symm.trans kind'
    exact inside
  | inner found' kind' left right =>
    cases Option.some.inj (found.symm.trans found')
    cases kind.symm.trans kind'

theorem coversOwn {h : Hierarchy} {p : Plan} (held : h.Holds p) {slot : Nat} :
    h.Covers p.place.toNat slot ↔ slot ∈ p.own := by
  cases held with
  | @leaf place node start count found kind inside =>
    rw [Plan.own,List.mem_range'_1]
    constructor
    · rintro ⟨node',start',count',found',kind',bounds⟩
      cases Option.some.inj (found.symm.trans found')
      cases kind.symm.trans kind'
      exact bounds
    · intro bounds
      exact ⟨node,start,count,found,kind,bounds⟩
  | inner found kind left right =>
    constructor
    · rintro ⟨node',start',count',found',kind',_⟩
      cases Option.some.inj (found.symm.trans found')
      cases kind.symm.trans kind'
    · intro none
      contradiction

theorem followRoot {h : Hierarchy} {p : Plan} (held : h.Holds p) (root : p.place = 0)
    {path : List Turn} {place : UInt32} :
    h.follow 0 path = some place ↔ ∃ q, p.partAt path = some q ∧ q.place = place := by
  rw [← root,followHeld held,Option.map_eq_some_iff]

theorem completePart {h : Hierarchy} {p : Plan} (complete : h.Complete p) {place : Nat}
    (inside : place < h.nodes.size) :
    ∃ path q, p.partAt path = some q ∧ q.place.toNat = place ∧ h.Holds q := by
  have member := complete.places.mem_iff.mpr (List.mem_range.mpr inside)
  obtain ⟨q,part,named⟩ := List.mem_map.mp member
  obtain ⟨path,found⟩ := Plan.memParts.mp part
  exact ⟨path,q,found,named,partsHeld complete.held q part⟩

theorem completeOnce {h : Hierarchy} {p : Plan} (complete : h.Complete p) {a b : List Turn}
    {q r : Plan} (atA : p.partAt a = some q) (atB : p.partAt b = some r)
    (same : q.place.toNat = r.place.toNat) : a = b := by
  have nodup := complete.places.nodup_iff.mpr List.nodup_range
  rw [Plan.placesFlat] at nodup
  exact Plan.apartOfNodup nodup a b q r _ atA atB (List.mem_singleton.mpr rfl)
    (List.mem_singleton.mpr same)

theorem wellFormedOfComplete {h : Hierarchy} {p : Plan} {triangles : Nat}
    (complete : h.Complete p)
    (listed : (h.order.toList.map UInt32.toNat).Perm (List.range triangles)) :
    h.WellFormed triangles where
  nonempty := by
    obtain ⟨_,found⟩ := heldNode complete.held
    exact Nat.zero_lt_of_lt (nodeInside found)
  inside path place found := by
    obtain ⟨q,part,rfl⟩ := (followRoot complete.held complete.root).mp found
    obtain ⟨_,node⟩ := heldNode (partsHeld complete.held q (Plan.memParts.mpr ⟨path,part⟩))
    exact nodeInside node
  once place inside := by
    obtain ⟨path,q,part,named,_⟩ := completePart complete inside
    refine ⟨path,?_,fun other found => ?_⟩
    · show (h.follow 0 path).map UInt32.toNat = some place
      rw [(followRoot complete.held complete.root).mpr ⟨q,part,rfl⟩]
      exact congrArg some named
    · obtain ⟨place',reached,rfl⟩ := Option.map_eq_some_iff.mp found
      obtain ⟨r,part',rfl⟩ := (followRoot complete.held complete.root).mp reached
      exact completeOnce complete part' part named.symm
  shallow path place found := by
    obtain ⟨q,part,_⟩ := (followRoot complete.held complete.root).mp found
    have depth := Plan.partAtDepth part
    have shallow : p.depth < 32 := complete.shallow
    omega
  ranges node member start count kind := by
    obtain ⟨i,inside,found⟩ := Array.mem_iff_getElem.mp member
    obtain ⟨path,q,part,named,held⟩ := completePart complete inside
    refine rangeHeld held ?_ kind
    rw [node?,named,Array.getElem?_eq_getElem inside,found]
  disjoint slot a b inA inB := by
    obtain ⟨_,_,_,foundA,_⟩ := id inA
    obtain ⟨_,_,_,foundB,_⟩ := id inB
    obtain ⟨pathA,q,partA,rfl,heldA⟩ := completePart complete (Array.getElem?_eq_some_iff.mp foundA).1
    obtain ⟨pathB,r,partB,rfl,heldB⟩ := completePart complete (Array.getElem?_eq_some_iff.mp foundB).1
    have nodup := complete.slots.nodup_iff.mpr List.nodup_range
    have same := Plan.apartOfNodup nodup pathA pathB q r slot partA partB
      ((coversOwn heldA).mp inA) ((coversOwn heldB).mp inB)
    rw [Option.some.inj (partA.symm.trans (same ▸ partB))]
  covered slot inside := by
    have member := complete.slots.mem_iff.mpr (List.mem_range.mpr inside)
    obtain ⟨q,part,own⟩ := List.mem_flatMap.mp member
    exact ⟨_,(coversOwn (partsHeld complete.held q part)).mpr own⟩
  length := by simpa using listed.length_eq
  listed := listed

theorem followOn {h : Hierarchy} {start place : UInt32} {path : List Turn} {node : Node}
    {left right : UInt32} (reached : h.follow start path = some place)
    (found : h.node? place = some node) (kind : node.kind = .inner left right) (turn : Turn) :
    h.follow start (path ++ [turn]) = some (turn.pick left right) := by
  induction path generalizing start with
  | nil =>
    cases Option.some.inj reached
    simp [follow,found,kind]
  | cons first rest ih =>
    simp only [follow,List.cons_append] at reached ⊢
    split at reached
    · exact ih reached
    · contradiction

/- From a place that is not too deep, what is below can be planned: the ways on are shorter. -/
theorem planFrom {h : Hierarchy} {triangles : Nat} (formed : h.WellFormed triangles) (levels : Nat)
    {path : List Turn} {place : UInt32} (reached : h.follow 0 path = some place)
    (room : path.length + levels = stackCapacity) :
    ∃ p, p.place = place ∧ h.Holds p ∧ p.depth < levels := by
  induction levels generalizing path place with
  | zero =>
    have shallow := formed.shallow path place reached
    simp only [stackCapacity] at room
    omega
  | succ levels ih =>
    have inside := formed.inside path place reached
    have found : h.node? place = some h.nodes[place.toNat] := Array.getElem?_eq_getElem inside
    cases kind : h.nodes[place.toNat].kind with
    | leaf start count =>
      have range := formed.ranges _ (Array.getElem_mem inside) start count kind
      exact ⟨_,rfl,.leaf found kind range,Nat.succ_pos levels⟩
    | inner left right =>
      obtain ⟨l,rfl,heldL,depthL⟩ := ih (followOn reached found kind .left) (by simp; omega)
      obtain ⟨r,rfl,heldR,depthR⟩ := ih (followOn reached found kind .right) (by simp; omega)
      refine ⟨_,rfl,.inner found kind heldL heldR,?_⟩
      simp only [Plan.depth]
      omega

theorem completeOfWellFormed {h : Hierarchy} {triangles : Nat} (formed : h.WellFormed triangles) :
    ∃ p, h.Complete p := by
  obtain ⟨p,root,held,shallow⟩ := @planFrom h triangles formed stackCapacity [] 0 rfl (Nat.zero_add _)
  -- there is one way to every place, so two parts at one place are one part
  have apart {a b : List Turn} {q r : Plan} (atA : p.partAt a = some q) (atB : p.partAt b = some r)
      (same : q.place.toNat = r.place.toNat) : a = b := by
    have reachA := (followRoot held root).mpr ⟨q,atA,rfl⟩
    have reachB := (followRoot held root).mpr ⟨r,atB,rfl⟩
    refine (formed.once q.place.toNat (formed.inside a _ reachA)).unique ?_ ?_
    · rw [reachA]; rfl
    · rw [reachB,same]; rfl
  have part {place : Nat} (inside : place < h.nodes.size) :
      ∃ q ∈ p.parts, q.place.toNat = place := by
    obtain ⟨path,reached,_⟩ := formed.once place inside
    obtain ⟨_,there,rfl⟩ := Option.map_eq_some_iff.mp reached
    obtain ⟨q,found,rfl⟩ := (followRoot held root).mp there
    exact ⟨q,Plan.memParts.mpr ⟨path,found⟩,rfl⟩
  have places : p.places.Nodup := by
    rw [Plan.placesFlat]
    refine Plan.nodupOfApart (fun _ _ => List.nodup_singleton _) fun a b q r x atA atB inA inB => ?_
    exact apart atA atB ((List.mem_singleton.mp inA).symm.trans (List.mem_singleton.mp inB))
  have slots : p.slots.Nodup := by
    refine Plan.nodupOfApart (fun q _ => Plan.ownNodup q) fun a b q r x atA atB inA inB => ?_
    have heldA := partsHeld held q (Plan.memParts.mpr ⟨a,atA⟩)
    have heldB := partsHeld held r (Plan.memParts.mpr ⟨b,atB⟩)
    exact apart atA atB (formed.disjoint x _ _ ((coversOwn heldA).mpr inA) ((coversOwn heldB).mpr inB))
  refine ⟨p,root,held,shallow,?_,?_⟩
  · refine (List.perm_ext_iff_of_nodup places List.nodup_range).mpr fun place => ?_
    rw [List.mem_range]
    constructor
    · intro member
      obtain ⟨q,inParts,rfl⟩ := List.mem_map.mp member
      obtain ⟨_,found⟩ := heldNode (partsHeld held q inParts)
      exact nodeInside found
    · intro inside
      obtain ⟨q,inParts,rfl⟩ := part inside
      exact List.mem_map.mpr ⟨q,inParts,rfl⟩
  · refine (List.perm_ext_iff_of_nodup slots List.nodup_range).mpr fun slot => ?_
    rw [List.mem_range]
    refine ⟨slotsInside held slot,fun inside => ?_⟩
    obtain ⟨place,covers⟩ := formed.covered slot inside
    obtain ⟨_,_,_,found,_⟩ := id covers
    obtain ⟨q,inParts,rfl⟩ := part (Array.getElem?_eq_some_iff.mp found).1
    exact List.mem_flatMap.mpr ⟨q,inParts,(coversOwn (partsHeld held q inParts)).mp covers⟩

def Refusal (e : BuildError) : Prop :=
  (∃ depth ≥ stackCapacity, e = .tooDeep depth stackCapacity) ∨ ∃ flaw, e = .invalid flaw

theorem visitRefusal {h : Hierarchy} {s : Survey h} {index : Fin h.nodes.size} {depth : Nat}
    {e : BuildError} (failed : s.visit index depth = .error e) : Refusal e := by
  unfold Survey.visit at failed
  split at failed
  · rename_i deep
    cases failed
    exact .inl ⟨depth,deep,rfl⟩
  · refine .inr ?_
    split at failed <;> split at failed <;> try split at failed
    all_goals cases failed
    all_goals exact ⟨_,rfl⟩

theorem runRefusal {h : Hierarchy} (s : Survey h) {e : BuildError} (failed : s.run = .error e) :
    Refusal e := by
  induction s using Survey.run.induct with
  | case1 s empty =>
    rw [Survey.runDone empty] at failed
    contradiction
  | case2 s index depth rest listed f next =>
    rw [Survey.runFails next] at failed
    cases failed
    unfold Survey.next at next
    split at next
    · cases next
      exact visitRefusal ‹_›
    · contradiction
  | case3 s index depth rest listed u next ih =>
    rw [Survey.runNext next] at failed
    exact ih failed

theorem orderRefusal {triangles : Nat} (order : List UInt32) (named : Vector Bool triangles) {e : BuildError}
    (failed : order.foldlM list named = .error e) : Refusal e := by
  induction order generalizing named with
  | nil => contradiction
  | cons triangle rest ih =>
    rw [List.foldlM_cons] at failed
    cases listed : list named triangle with
    | error f =>
      rw [listed] at failed
      cases failed
      unfold list at listed
      split at listed
      · split at listed <;> cases listed
        exact .inr ⟨_,rfl⟩
      · cases listed
        exact .inr ⟨_,rfl⟩
    | ok final =>
      rw [listed] at failed
      exact ih final failed

theorem checkOrderRefusal {order : List UInt32} {triangles : Nat} {e : BuildError}
    (failed : checkOrder order triangles = .error e) : Refusal e := by
  unfold checkOrder at failed
  cases listed : order.foldlM list (Vector.replicate triangles false) with
  | error f =>
    rw [listed] at failed
    cases failed
    exact orderRefusal order _ listed
  | ok final =>
    rw [listed] at failed
    contradiction

theorem checkRefusal {h : Hierarchy} {triangles : Nat} {e : BuildError}
    (failed : h.check triangles = .error e) : Refusal e := by
  unfold check at failed
  split at failed
  · split at failed
    · cases failed
      exact .inr ⟨_,rfl⟩
    · cases done : (Survey.start h ‹_›).run with
      | error f =>
        rw [done] at failed
        cases failed
        exact runRefusal _ done
      | ok t =>
        rw [done] at failed
        by_cases held : t.held = h.order.size
        · by_cases visits : t.visits = h.nodes.size
          · simp only [bind,Except.bind,held,visits,ne_eq,not_true_eq_false,if_false] at failed
            exact checkOrderRefusal failed
          · simp [bind,Except.bind,throw,throwThe,MonadExceptOf.throw,held,visits] at failed
            exact .inr ⟨_,failed.symm⟩
        · simp [bind,Except.bind,throw,throwThe,MonadExceptOf.throw,held] at failed
          exact .inr ⟨_,failed.symm⟩
  · cases failed
    exact .inr ⟨_,rfl⟩

theorem checkWellFormed (h : Hierarchy) (triangles : Nat) :
    (h.check triangles = .ok () ↔ h.WellFormed triangles) ∧
      ∀ e, h.check triangles = .error e → Refusal e := by
  refine ⟨?_,fun e => checkRefusal⟩
  rw [checkComplete]
  constructor
  · rintro ⟨⟨p,complete⟩,listed⟩
    exact wellFormedOfComplete complete listed
  · intro formed
    exact ⟨completeOfWellFormed formed,formed.listed⟩

end Sightline.Hierarchy
