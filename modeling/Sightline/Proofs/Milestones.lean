import Sightline.Proofs.Bounds
import Sightline.Proofs.Fractions
import Mathlib.Algebra.GroupWithZero.Nat

/-! What is told while a tree is built. Reports are due at some of the counts that the leaves, finished from left to
right, add up to: where the whole percents grow. The last count is that of all triangles and the percents before it
stay below a hundred, so the end is always among them, whatever sizes the leaves have. The counter and the percents
reported last are machine words that go along with the build from leaf to leaf; this is spelled out at the end, and
comes to the same reports as long as a hundred times the count still is a word. -/
namespace Sightline

namespace Progress
section
variable {total placed k : Nat} {sizes : List Nat}

def percent (total placed : Nat) : Nat := placed * 100 / total

def due (total placed : Nat) : List Nat → List Nat
  | [] => []
  | size :: rest =>
    if percent total placed < percent total (placed + size) then (placed + size) :: due total (placed + size) rest
    else due total (placed + size) rest

theorem percentMono {later : Nat} (h : placed ≤ later) : percent total placed ≤ percent total later :=
  Nat.div_le_div_right (Nat.mul_le_mul_right _ h)

theorem percentNone (total : Nat) : percent total 0 = 0 := by simp [percent]

theorem percentWhole (some : 0 < total) : percent total total = 100 := Nat.mul_div_cancel_left _ some

theorem percentBelow (less : placed < total) : percent total placed < 100 := by
  unfold percent
  rw [Nat.div_lt_iff_lt_mul (by omega)]
  omega

theorem reportsDue (total placed : Nat) (sizes : List Nat) : reports total placed (percent total placed) sizes =
    (due total placed sizes).map fun k => fraction k total := by
  induction sizes generalizing placed with
  | nil => rfl
  | cons size rest ih =>
    rw [reports,due]
    have grows := @percentMono total placed (placed + size) (Nat.le_add_right _ _)
    show (if percent total placed < percent total (placed + size) then _ else _) = _
    by_cases more : percent total placed < percent total (placed + size)
    · rw [if_pos more,if_pos more,List.map_cons,← ih]
      rfl
    · have same : percent total placed = percent total (placed + size) := by omega
      rw [if_neg more,if_neg more,same]
      exact ih (placed + size)

theorem dueExactly (total placed : Nat) (sizes : List Nat) (k : Nat) : k ∈ due total placed sizes ↔
    ∃ before size after, sizes = before ++ size :: after ∧ k = placed + before.sum + size ∧
      percent total (placed + before.sum) < percent total k := by
  induction sizes generalizing placed with
  | nil => simp [due]
  | cons size rest ih =>
    have member : k ∈ due total placed (size :: rest) ↔
        (k = placed + size ∧ percent total placed < percent total k) ∨ k ∈ due total (placed + size) rest := by
      rw [due]
      by_cases more : percent total placed < percent total (placed + size)
      · rw [if_pos more,List.mem_cons]
        exact or_congr_left ⟨fun here => ⟨here,here ▸ more⟩,And.left⟩
      · rw [if_neg more]
        exact ⟨.inr,fun h => h.elim (fun ⟨here,above⟩ => absurd (here ▸ above) more) id⟩
    rw [member,ih]
    constructor
    · rintro (⟨rfl,above⟩ | ⟨before,next,after,rfl,rfl,above⟩)
      · exact ⟨[],size,rest,rfl,rfl,above⟩
      · exact ⟨size :: before,next,after,rfl,by simp; omega,by simpa [Nat.add_assoc] using above⟩
    · rintro ⟨before,next,after,split,rfl,above⟩
      cases before with
      | nil =>
        obtain ⟨rfl,rfl⟩ := List.cons.inj split
        exact .inl ⟨by simp,by simpa using above⟩
      | cons first before =>
        obtain ⟨rfl,rfl⟩ := List.cons.inj split
        exact .inr ⟨before,next,after,rfl,by simp; omega,by simpa [Nat.add_assoc] using above⟩

theorem dueAbove (due_ : k ∈ due total placed sizes) :
    percent total placed < percent total k ∧ k ≤ placed + sizes.sum := by
  obtain ⟨before,size,after,rfl,rfl,above⟩ := (dueExactly ..).mp due_
  refine ⟨Nat.lt_of_le_of_lt (percentMono (Nat.le_add_right _ _)) above,?_⟩
  simp
  omega

theorem duePercents (total placed : Nat) (sizes : List Nat) :
    (due total placed sizes).Pairwise fun j k => percent total j < percent total k := by
  induction sizes generalizing placed with
  | nil => exact .nil
  | cons size rest ih =>
    rw [due]
    split
    · exact .cons (fun k later => (dueAbove later).1) (ih _)
    · exact ih _

theorem dueRising (total placed : Nat) (sizes : List Nat) : (due total placed sizes).Pairwise (· < ·) :=
  (duePercents total placed sizes).imp fun above => Nat.lt_of_not_le fun below =>
    Nat.not_lt_of_le (percentMono below) above

theorem dueFew (some : 0 < total) (within : placed + sizes.sum ≤ total) :
    (due total placed sizes).length + percent total placed ≤ 100 := by
  induction sizes generalizing placed with
  | nil =>
    rw [← percentWhole some,due,List.length_nil,Nat.zero_add]
    exact percentMono within
  | cons size rest ih =>
    rw [List.sum_cons,← Nat.add_assoc] at within
    have later := ih within
    have grows := @percentMono total placed (placed + size) (Nat.le_add_right _ _)
    rw [due]
    split
    · rw [List.length_cons]
      omega
    · omega

theorem dueWhole (less : placed < total) (all : placed + sizes.sum = total) : total ∈ due total placed sizes := by
  induction sizes generalizing placed with
  | nil => exact absurd all (Nat.ne_of_lt less)
  | cons size rest ih =>
    rw [List.sum_cons,← Nat.add_assoc] at all
    rw [due]
    rcases Nat.lt_or_eq_of_le (show placed + size ≤ total by omega) with below | here
    · have later := ih below all
      split
      · exact List.mem_cons_of_mem _ later
      · exact later
    · have above : percent total placed < percent total (placed + size) := by
        rw [here,percentWhole (by omega)]
        exact percentBelow less
      rw [if_pos above,here]
      exact List.mem_cons_self

theorem dueLast (some : 0 < total) (all : sizes.sum = total) : (due total 0 sizes).getLast? = Option.some total := by
  have whole : total ∈ due total 0 sizes := dueWhole some (by omega)
  obtain ⟨before,after,split⟩ := List.append_of_mem whole
  have rising := dueRising total 0 sizes
  have past : ∀ k ∈ after, False := by
    intro k later
    have within := (@dueAbove _ 0 k sizes (by rw [split]; simp [later])).2
    rw [split] at rising
    have above := (List.pairwise_cons.mp (List.pairwise_append.mp rising).2.1).1 k later
    omega
  rw [split,List.eq_nil_iff_forall_not_mem.mpr past]
  exact List.getLast?_concat

end

theorem reportsAll (total : Nat) (t : Tree) : ofTree total t =
    ((due total 0 (t.leaves.map List.length)).map fun k => fraction k total) ++ [1] := by
  rw [← reportsDue,percentNone]
  rfl

theorem fractionsRise {total : Nat} (word : total < 18446744073709551616) {counts : List Nat}
    (rising : counts.Pairwise (· < ·)) (within : ∀ k ∈ counts, 0 < k ∧ k ≤ total) :
    (∀ x ∈ (counts.map fun k => fraction k total) ++ [1], 0 < x ∧ x ≤ 1) ∧
      ((counts.map fun k => fraction k total) ++ [1]).Pairwise (· ≤ ·) := by
  have unit : ∀ k ∈ counts, 0 < fraction k total ∧ fraction k total ≤ 1 := by
    intro k member
    obtain ⟨some,most⟩ := within k member
    rw [← fractionWhole (Nat.lt_of_lt_of_le some most) word]
    exact ⟨fractionPositive some most word,fractionMono some most (Nat.le_refl _) word⟩
  have last : (0 : Float) < 1 ∧ (1 : Float) ≤ 1 := by decide +kernel
  have below : ∀ x ∈ counts.map fun k => fraction k total, 0 < x ∧ x ≤ 1 := List.forall_mem_map.mpr unit
  refine ⟨fun x member => ?_,List.pairwise_append.mpr ⟨?_,List.pairwise_singleton _ _,fun x member y one => ?_⟩⟩
  · rcases List.mem_append.mp member with earlier | one
    · exact below x earlier
    · exact List.mem_singleton.mp one ▸ last
  · exact List.pairwise_map.mpr (rising.imp_of_mem fun first second less =>
      fractionMono (within _ first).1 (Nat.le_of_lt less) (within _ second).2 word)
  · exact List.mem_singleton.mp one ▸ (below x member).2

theorem leafSizes (t : Tree) : (t.leaves.map List.length).sum = t.triangleCount := by
  rw [← t.trianglesLength,Tree.triangles,List.length_flatten]

/-- What is kept in machine words during a build, and what was told. -/
structure Meter where
  placed : UInt64
  last : UInt32
  told : List Float
  deriving Repr

def Meter.finish (total : UInt64) (m : Meter) (size : Nat) : Meter :=
  let placed := m.placed + size.toUInt64
  if total = 0 then { m with placed }
  else
    let percent := (placed * 100 / total).toUInt32
    if m.last < percent then ⟨placed,percent,m.told ++ [placed.toFloat / total.toFloat]⟩
    else { m with placed }

section
variable {total placed : Nat} {told : List Float}

def meter (total placed : Nat) (told : List Float) : Meter :=
  ⟨placed.toUInt64,(percent total placed).toUInt32,told⟩

theorem percentWord (word : total * 100 < 18446744073709551616) (within : placed ≤ total) :
    (placed.toUInt64 * 100 / total.toUInt64).toUInt32 = (percent total placed).toUInt32 := by
  have product : (placed.toUInt64 * 100).toNat = placed * 100 := by
    rw [UInt64.toNat_mul,wordOf (by omega)]
    exact Nat.mod_eq_of_lt (show placed * 100 < 2 ^ 64 by omega)
  refine UInt32.toNat_inj.mp ?_
  rw [UInt64.toNat_toUInt32,UInt64.toNat_div,product,wordOf (by omega)]
  rfl

theorem percentFits (some : 0 < total) (within : placed ≤ total) :
    (percent total placed).toUInt32.toNat = percent total placed := by
  have most : percent total placed ≤ 100 := percentWhole some ▸ percentMono within
  exact UInt32.toNat_ofNat_of_lt' (Nat.lt_of_le_of_lt most (by decide))

theorem finishAt (some : 0 < total) (word : total * 100 < 18446744073709551616) {size : Nat}
    (within : placed + size ≤ total) : (meter total placed told).finish total.toUInt64 size =
      meter total (placed + size) (told ++ if percent total placed < percent total (placed + size) then
        [fraction (placed + size) total] else []) := by
  have nonzero : total.toUInt64 ≠ 0 := by
    intro zero
    have same := (wordOf (show total < 18446744073709551616 by omega)).symm.trans (congrArg UInt64.toNat zero)
    exact Nat.ne_of_gt some same
  have sum : placed.toUInt64 + size.toUInt64 = (placed + size).toUInt64 := by
    refine UInt64.toNat_inj.mp ?_
    rw [UInt64.toNat_add,wordOf (by omega),wordOf (by omega),wordOf (by omega)]
    exact Nat.mod_eq_of_lt (by omega)
  have grows : (percent total placed).toUInt32 < (percent total (placed + size)).toUInt32 ↔
      percent total placed < percent total (placed + size) := by
    rw [UInt32.lt_iff_toNat_lt,percentFits some (by omega),percentFits some within]
  unfold Meter.finish meter
  dsimp only
  rw [if_neg nonzero,sum,percentWord word within]
  by_cases more : percent total placed < percent total (placed + size)
  · rw [if_pos (grows.mpr more),if_pos more]
    rfl
  · -- nothing is told, and the percents kept are already those of the new count
    have same := Nat.le_antisymm (@percentMono total _ _ (Nat.le_add_right placed size)) (Nat.not_lt.mp more)
    rw [if_neg (mt grows.mp more),if_neg more,List.append_nil,same]

theorem finishAll (some : 0 < total) (word : total * 100 < 18446744073709551616) (sizes : List Nat)
    (within : placed + sizes.sum ≤ total) : (sizes.foldl (Meter.finish total.toUInt64)
      (meter total placed told)).told = told ++ (due total placed sizes).map fun k => fraction k total := by
  induction sizes generalizing placed told with
  | nil => simp [meter,due]
  | cons size rest ih =>
    rw [List.sum_cons,← Nat.add_assoc] at within
    rw [List.foldl_cons,finishAt some word (by omega),ih within,due,List.append_assoc]
    split <;> rfl

end
end Progress

namespace Tree
open Progress

abbrev Metered := StateM Meter

def leafMetered (total : UInt64) (work : List Item) : Metered Tree := do
  modify fun m => m.finish total work.length
  return ofItems work

def buildMetered (total : UInt64) (work : List Item) (depth : Nat) : Metered Tree :=
  if work.length < leafThreshold then leafMetered total work
  else
    let best := Split.find work (Item.boundsOf work) depth
    if found : best.isSome then do
      let s := best.get found
      let l ← buildMetered total (s.left work) (depth + 1)
      let r ← buildMetered total (s.right work) (depth + 1)
      return join l r
    else leafMetered total work
termination_by work.length
decreasing_by
  · exact (Split.foundShrinks (Option.some_get found).symm).1
  · exact (Split.foundShrinks (Option.some_get found).symm).2

def buildTold (work : List Item) : Tree × List Float :=
  let (t,m) := (buildMetered work.length.toUInt64 work 0).run ⟨0,0,[]⟩
  (t,m.told ++ [1])

theorem leafSizesJoin (l r : Tree) :
    (join l r).leaves.map List.length = l.leaves.map List.length ++ r.leaves.map List.length := by
  rw [join,leaves,List.map_append]

theorem meteredLeaf (total : UInt64) (work : List Item) (m : Meter) : (leafMetered total work).run m =
    (ofItems work,((ofItems work).leaves.map List.length).foldl (Meter.finish total) m) := by
  have size : (ofItems work).leaves.map List.length = [work.length] := by simp [ofItems,leaves]
  rw [size]
  rfl

theorem meteredBuild (total : UInt64) (work : List Item) (depth : Nat) (m : Meter) :
    (buildMetered total work depth).run m = (buildAt work depth,
      ((buildAt work depth).leaves.map List.length).foldl (Meter.finish total) m) := by
  induction work, depth using buildAt.induct generalizing m with
  | case1 work depth small =>
    rw [buildMetered,if_pos small,buildAtLeaf (.inl small),meteredLeaf]
  | case2 work depth large best found s hl hr =>
    rw [buildMetered,if_neg large,dif_pos found,buildAtInner large (Option.some_get found).symm,leafSizesJoin,
      List.foldl_append]
    dsimp only
    rw [StateT.run_bind,hl]
    show StateT.run (_ >>= _) _ = _
    rw [StateT.run_bind,hr]
    rfl
  | case3 work depth large best none =>
    rw [buildMetered,if_neg large,dif_neg none,buildAtLeaf (.inr (Option.not_isSome_iff_eq_none.mp none)),meteredLeaf]

theorem builtSizes (work : List Item) : ((build work).leaves.map List.length).sum = work.length := by
  rw [leafSizes,← trianglesLength,build,(buildAtTriangles work 0).length_eq,List.length_map]

theorem buildToldReports (work : List Item) (some : work ≠ []) (word : work.length * 100 < 18446744073709551616) :
    buildTold work = (build work,ofTree work.length (build work)) := by
  have told := @finishAll _ 0 [] (List.length_pos_of_ne_nil some) word ((build work).leaves.map List.length)
    (Nat.le_of_eq ((Nat.zero_add _).trans (builtSizes work)))
  have start : (⟨0,0,[]⟩ : Meter) = meter work.length 0 [] := by
    rw [meter,percentNone]
    rfl
  unfold buildTold
  rw [meteredBuild,← build,start]
  dsimp only
  rw [told,List.nil_append,reportsAll]

theorem reportsRise (work : List Item) (some : work ≠ []) (word : work.length < 18446744073709551616) :
    (∃ counts : List Nat,
      ofTree work.length (build work) = (counts.map fun k => fraction k work.length) ++ [1] ∧
      (∀ k, k ∈ counts ↔ ∃ before size after, (build work).leaves.map List.length = before ++ size :: after ∧
        k = before.sum + size ∧ percent work.length before.sum < percent work.length k) ∧
      counts.Pairwise (· < ·) ∧ counts.getLast? = Option.some work.length ∧
      (counts.map (percent work.length)).Pairwise (· < ·)) ∧
    (ofTree work.length (build work)).length ≤ 101 ∧
    (∀ x ∈ ofTree work.length (build work), 0 < x ∧ x ≤ 1) ∧
    (ofTree work.length (build work)).Pairwise (· ≤ ·) ∧
    (ofTree work.length (build work)).getLast? = Option.some 1 ∧
    (work.length * 100 < 18446744073709551616 → buildTold work = (build work,ofTree work.length (build work))) := by
  have count := List.length_pos_of_ne_nil some
  have all := builtSizes work
  have rising := dueRising work.length 0 ((build work).leaves.map List.length)
  have within : ∀ k ∈ due work.length 0 ((build work).leaves.map List.length), 0 < k ∧ k ≤ work.length := by
    intro k member
    obtain ⟨above,most⟩ := dueAbove member
    rw [percentNone] at above
    refine ⟨Nat.pos_of_ne_zero fun none => ?_,by omega⟩
    rw [none,percentNone] at above
    exact Nat.lt_irrefl 0 above
  have few := @dueFew _ 0 _ count (Nat.le_of_eq ((Nat.zero_add _).trans all))
  obtain ⟨unit,sorted⟩ := fractionsRise word rising within
  rw [reportsAll]
  refine ⟨⟨_,rfl,fun k => ?_,rising,dueLast count all,List.pairwise_map.mpr (duePercents ..)⟩,?_,unit,sorted,
    List.getLast?_concat,fun product => ?_⟩
  · simpa only [Nat.zero_add] using dueExactly work.length 0 ((build work).leaves.map List.length) k
  · rw [List.length_append,List.length_map,List.length_singleton]
    omega
  · rw [← reportsAll]
    exact buildToldReports work some product

theorem bladesTold : Hierarchy.bladeItems ≠ [] ∧ Hierarchy.bladeItems.length = 4 ∧
    (∀ x ∈ [0.5,1,1], (0 : Float) < x ∧ x ≤ 1) ∧
    buildTold Hierarchy.bladeItems = (build Hierarchy.bladeItems,[0.5,1,1]) := by
  have four : Hierarchy.bladeItems.length = 4 := by simp [Hierarchy.bladeItems,Hierarchy.blades,
    Hierarchy.bladePlaces,Item.ofTriangles]
  have some : Hierarchy.bladeItems ≠ [] := List.ne_nil_of_length_pos (by rw [four]; decide)
  have reports : ofTree Hierarchy.bladeItems.length (build Hierarchy.bladeItems) = [0.5,1,1] := by
    rw [Hierarchy.bladesTree]
    decide +kernel
  obtain ⟨_,_,unit,_,_,told⟩ := reportsRise Hierarchy.bladeItems some (by rw [four]; decide)
  rw [reports] at unit told
  exact ⟨some,four,unit,told (by rw [four]; decide)⟩

end Tree
end Sightline
