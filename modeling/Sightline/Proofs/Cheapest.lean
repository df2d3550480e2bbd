import Sightline.Proofs.Bounds

/-! Which division a search ends with. The planes that are tried on an axis are counted: each lies one more
rounded step from the start, as long as it stays a step below the stop and the addition still gains. Among all
planes tried so far the search keeps the first of the cheapest, and none until one is cheaper than not dividing.
A cost that is no number is never cheaper than anything. What a plane costs can be found in one pass over the
boxes, with a box and a count for either side. -/
namespace Sightline.Split

def sample (step x : Scalar) : Nat → Scalar
  | 0 => x
  | i + 1 => sample step (x + step) i

def spacing (start stop : Scalar) (depth : Nat) : Scalar :=
  (stop - start) / (gridSize / (Scalar.ofCount depth + 1))

structure Sampled (step limit x : Scalar) (i : Nat) (v : Scalar) : Prop where
  placed : sample step x i = v
  below : ∀ j ≤ i, sample step x j < limit
  grows : ∀ j < i, sample step x j < sample step x (j + 1)

section
variable {step limit x v : Scalar} {i : Nat}

theorem sampledFirst : Sampled step limit x 0 v ↔ x = v ∧ x < limit := by
  constructor
  · intro sampled
    exact ⟨sampled.placed,sampled.below 0 (Nat.le_refl 0)⟩
  · rintro ⟨same,below⟩
    refine ⟨same,fun j first => ?_,fun j none => nomatch none⟩
    cases Nat.le_zero.mp first
    exact below

theorem sampledLater : Sampled step limit x (i + 1) v ↔
    x < limit ∧ x < x + step ∧ Sampled step limit (x + step) i v := by
  constructor
  · intro sampled
    refine ⟨sampled.below 0 (Nat.zero_le _),sampled.grows 0 (Nat.succ_pos i),sampled.placed,?_,?_⟩
    · exact fun j upTo => sampled.below (j + 1) (Nat.succ_le_succ upTo)
    · exact fun j before => sampled.grows (j + 1) (Nat.succ_lt_succ before)
  · rintro ⟨below,grows,sampled⟩
    refine ⟨sampled.placed,fun j upTo => ?_,fun j before => ?_⟩
    · cases j with
      | zero => exact below
      | succ j => exact sampled.below j (Nat.le_of_succ_le_succ upTo)
    · cases j with
      | zero => exact grows
      | succ j => exact sampled.grows j (Nat.lt_of_succ_lt_succ before)

theorem sampledBelow (sampled : Sampled step limit x i v) : x < limit := sampled.below 0 (Nat.zero_le i)

/- A sum that is no number is not above anything, but it is not below the limit either. -/
theorem samplesAt : (samples step limit x)[i]? = some v ↔ Sampled step limit x i v := by
  induction i generalizing x with
  | zero =>
    rw [sampledFirst,samples]
    split
    · rename_i below
      simp [below]
    · rename_i above
      simp [above]
  | succ i ih =>
    rw [sampledLater]
    by_cases below : x < limit
    · by_cases lost : x + step ≤ x
      · rw [samplesLost below lost]
        refine ⟨fun none => ?_,fun later => ?_⟩
        · contradiction
        · exact (Scalar.ltIrrefl x (Scalar.ltOfLtLe later.2.1 lost)).elim
      · rw [samplesMore below lost,List.getElem?_cons_succ,ih]
        refine ⟨fun sampled => ⟨below,?_,sampled⟩,fun later => later.2.2⟩
        exact Scalar.ltOfNotLe (Scalar.ltNumbers below).1 (Scalar.ltNumbers (sampledBelow sampled)).1 lost
    · rw [samples,dif_neg below]
      refine ⟨fun none => ?_,fun later => (below later.1).elim⟩
      contradiction

theorem gridAt {start stop : Scalar} {depth : Nat} : (grid start stop depth)[i]? = some v ↔
    ¬Float32.abs (stop - start) < flatness ∧
      Sampled (spacing start stop depth) (stop - spacing start stop depth) (start + spacing start stop depth) i v := by
  unfold grid
  split
  · rename_i flat
    simp [flat]
  · rename_i wide
    rw [← samplesAt]
    simp only [wide,not_false_eq_true,true_and]
    rfl

end

inductive Cheapest (work : List Item) (limit : Scalar) (tried : List Split) : Best → Prop where
  | undivided (dear : ∀ t ∈ tried, ∀ d, cost work t = some d → ¬d < limit) :
      Cheapest work limit tried ⟨limit,none⟩
  | divided {before after s c} (listed : tried = before ++ s :: after) (priced : cost work s = some c)
      (cheaper : c < limit)
      (first : ∀ t ∈ before, ∀ d, cost work t = some d → (d == c) = false)
      (least : ∀ t ∈ tried, ∀ d, cost work t = some d → ¬d < c) :
      Cheapest work limit tried ⟨c,some s⟩

section
variable {work : List Item} {limit : Scalar} {tried : List Split} {best : Best} {s : Split}

theorem cheaperThan {c d e : Scalar} (cheaper : c < e) (dear : ¬d < e) : ¬d < c ∧ (d == c) = false := by
  refine ⟨fun below => dear (Scalar.ltTrans below cheaper),Bool.eq_false_iff.mpr fun same => ?_⟩
  exact dear (Scalar.ltOfLeLt (Scalar.sameIff.mp same).1 cheaper)

theorem cheapestPassed (cheapest : Cheapest work limit tried best)
    (passed : ∀ d, cost work s = some d → ¬d < best.cost) : Cheapest work limit (tried ++ [s]) best := by
  cases cheapest with
  | undivided dear =>
    refine .undivided (List.forall_mem_append.mpr ⟨dear,fun t member => ?_⟩)
    cases List.mem_singleton.mp member
    exact passed
  | @divided before after t c listed priced cheaper first least =>
    have listed : tried ++ [s] = before ++ t :: (after ++ [s]) := by simp [listed]
    refine .divided listed priced cheaper first (List.forall_mem_append.mpr ⟨least,fun t member => ?_⟩)
    cases List.mem_singleton.mp member
    exact passed

theorem cheapestTaken {c : Scalar} (cheapest : Cheapest work limit tried best) (priced : cost work s = some c)
    (cheaper : c < best.cost) : Cheapest work limit (tried ++ [s]) ⟨c,some s⟩ := by
  have below : c < limit ∧ ∀ t ∈ tried, ∀ d, cost work t = some d → ¬d < best.cost := by
    cases cheapest with
    | undivided dear => exact ⟨cheaper,dear⟩
    | divided _ _ under _ least => exact ⟨Scalar.ltTrans cheaper under,least⟩
  obtain ⟨under,dear⟩ := below
  refine .divided rfl priced under ?_ (List.forall_mem_append.mpr ⟨?_,fun t member => ?_⟩)
  · exact fun t member d known => (cheaperThan cheaper (dear t member d known)).2
  · exact fun t member d known => (cheaperThan cheaper (dear t member d known)).1
  · cases List.mem_singleton.mp member
    intro d known
    cases Option.some.inj (known.symm.trans priced)
    exact Scalar.ltIrrefl c

theorem cheapestNext (cheapest : Cheapest work limit tried best) (s : Split) :
    Cheapest work limit (tried ++ [s]) (consider work best s) := by
  unfold consider
  cases priced : cost work s with
  | none =>
    refine cheapestPassed cheapest fun d known => ?_
    rw [priced] at known
    contradiction
  | some c =>
    dsimp only
    split
    · rename_i cheaper
      exact cheapestTaken cheapest priced cheaper
    · rename_i dear
      refine cheapestPassed cheapest fun d known => ?_
      cases Option.some.inj (known.symm.trans priced)
      exact dear

theorem cheapestFold (cheapest : Cheapest work limit tried best) (rest : List Split) :
    Cheapest work limit (tried ++ rest) (rest.foldl (consider work) best) := by
  induction rest generalizing tried best with
  | nil => simpa using cheapest
  | cons s rest ih =>
    have next := ih (cheapestNext cheapest s)
    rwa [List.append_assoc] at next

theorem cheapestNone (cheapest : Cheapest work limit tried best) : best.split = none ↔
    ∀ t ∈ tried, ∀ d, cost work t = some d → ¬d < limit := by
  cases cheapest with
  | undivided dear => exact ⟨fun _ => dear,fun _ => rfl⟩
  | divided listed priced cheaper first least =>
    refine ⟨fun none => (nomatch none),fun dear => ?_⟩
    exact (dear _ (by simp [listed]) _ priced cheaper).elim

end

structure Sides where
  left : Box
  leftCount : Nat
  right : Box
  rightCount : Nat

def Sides.put (s : Split) (sides : Sides) (item : Item) : Sides :=
  if s.goesLeft item then { sides with left := sides.left.union item.bounds, leftCount := sides.leftCount + 1 }
  else { sides with right := sides.right.union item.bounds, rightCount := sides.rightCount + 1 }

theorem sidesSwept (s : Split) (work : List Item) (sides : Sides) : work.foldl (Sides.put s) sides =
    ⟨((s.left work).map Item.bounds).foldl Box.union sides.left,sides.leftCount + (s.left work).length,
      ((s.right work).map Item.bounds).foldl Box.union sides.right,sides.rightCount + (s.right work).length⟩ := by
  induction work generalizing sides with
  | nil => rfl
  | cons item rest ih =>
    rw [List.foldl_cons,ih]
    unfold left right Sides.put
    cases side : s.goesLeft item with
    | true => simp [side,Nat.add_assoc,Nat.add_comm 1]
    | false => simp [side,Nat.add_assoc,Nat.add_comm 1]

theorem costSwept (work : List Item) (s : Split) : cost work s =
    let sides := work.foldl (Sides.put s) ⟨.empty,0,.empty,0⟩
    if sides.leftCount ≤ 1 ∨ sides.rightCount ≤ 1 then none
    else some (sides.left.halfArea * Scalar.ofCount sides.leftCount +
      sides.right.halfArea * Scalar.ofCount sides.rightCount) := by
  rw [sidesSwept,Nat.zero_add,Nat.zero_add]
  rfl

theorem candidatesAlong (bounds : Box) (depth : Nat) : candidates bounds depth =
    (grid bounds.bottom.x bounds.top.x depth).map (mk .x) ++
      (grid bounds.bottom.y bounds.top.y depth).map (mk .y) ++
        (grid bounds.bottom.z bounds.top.z depth).map (mk .z) := by
  simp [candidates,Axis.all,Vec3.component]

theorem foundFirst (work : List Item) (bounds : Box) (depth : Nat) :
    (candidates bounds depth = (grid bounds.bottom.x bounds.top.x depth).map (mk .x) ++
      (grid bounds.bottom.y bounds.top.y depth).map (mk .y) ++
        (grid bounds.bottom.z bounds.top.z depth).map (mk .z)) ∧
    (∀ a i v, (grid (bounds.bottom.component a) (bounds.top.component a) depth)[i]? = some v ↔
      ¬Float32.abs (bounds.top.component a - bounds.bottom.component a) < flatness ∧
        Sampled (spacing (bounds.bottom.component a) (bounds.top.component a) depth)
          (bounds.top.component a - spacing (bounds.bottom.component a) (bounds.top.component a) depth)
          (bounds.bottom.component a + spacing (bounds.bottom.component a) (bounds.top.component a) depth) i v) ∧
    (∀ s c, cost work s = some c ↔ 2 ≤ (s.left work).length ∧ 2 ≤ (s.right work).length ∧
      c = (Item.boundsOf (s.left work)).halfArea * Scalar.ofCount (s.left work).length +
        (Item.boundsOf (s.right work)).halfArea * Scalar.ofCount (s.right work).length) ∧
    (find work bounds depth = none ↔ ∀ t ∈ candidates bounds depth, ∀ d, cost work t = some d →
      ¬d < Scalar.ofCount work.length * bounds.halfArea) ∧
    ∀ s, find work bounds depth = some s → ∃ before after c,
      candidates bounds depth = before ++ s :: after ∧
      2 ≤ (s.left work).length ∧ 2 ≤ (s.right work).length ∧ cost work s = some c ∧
      c < Scalar.ofCount work.length * bounds.halfArea ∧
      (∀ t ∈ candidates bounds depth, ∀ d, cost work t = some d → ¬d < c) ∧
      ∀ t ∈ before, ∀ d, cost work t = some d → (d == c) = false := by
  have start : Cheapest work (undivided work bounds).cost [] (undivided work bounds) :=
    .undivided fun t member => nomatch member
  have cheapest := cheapestFold start (candidates bounds depth)
  rw [List.nil_append] at cheapest
  refine ⟨candidatesAlong bounds depth,fun a i v => gridAt,fun s c => costPriced,cheapestNone cheapest,fun s found => ?_⟩
  unfold find at found
  generalize (candidates bounds depth).foldl (consider work) (undivided work bounds) = best at cheapest found
  cases cheapest with
  | undivided dear => contradiction
  | @divided before after t c listed priced cheaper first least =>
    cases Option.some.inj found
    obtain ⟨left,right⟩ := costShrinks priced
    exact ⟨before,after,c,listed,left,right,priced,cheaper,least,first⟩

/- Two planes leave a single blade on one side, two part the pairs at one and the same cost. -/
theorem bladesFirst : find Hierarchy.bladeItems (Item.boundsOf Hierarchy.bladeItems) 0 = some ⟨.x,16777215⟩ ∧
    ∃ before after c, candidates (Item.boundsOf Hierarchy.bladeItems) 0 = before ++ ⟨.x,16777215⟩ :: after ∧
      cost Hierarchy.bladeItems ⟨.x,16777215⟩ = some c ∧
      (∀ t ∈ candidates (Item.boundsOf Hierarchy.bladeItems) 0, ∀ d, cost Hierarchy.bladeItems t = some d → ¬d < c) ∧
      ∀ t ∈ before, ∀ d, cost Hierarchy.bladeItems t = some d → (d == c) = false := by
  obtain ⟨_,_,_,_,first⟩ := foundFirst Hierarchy.bladeItems (Item.boundsOf Hierarchy.bladeItems) 0
  obtain ⟨before,after,c,listed,_,_,priced,_,least,earlier⟩ := first _ Hierarchy.bladesSplit
  exact ⟨Hierarchy.bladesSplit,before,after,c,listed,priced,least,earlier⟩

end Sightline.Split
