import Sightline.Proofs.Cheapest
import Sightline.Proofs.Difference
import Mathlib.Logic.Function.Iterate

/-! The loop that samples planes between two numbers, turn by turn. A turn ends the loop or raises the number that is up
next, whatever the two numbers are: turned around, infinite or none at all. So the loop ends one turn after the last
number that it tried, those that it tried rise strictly below the limit, and there are no more of them than there are
numbers between the start and the limit. A step that is not positive is taken once at most. -/
namespace Sightline

namespace Scalar
open Float.Model (UnpackedFloat)

section
variable {u v : UnpackedFloat}

theorem addFirst (stray : u.isFinite = false) :
    UnpackedFloat.add .binary32 u v = u ∨ UnpackedFloat.add .binary32 u v = .notANumber := by
  cases u with
  | zero s => contradiction
  | finite s m e positive => contradiction
  | notANumber => exact .inl rfl
  | infinity s =>
    cases v with
    | infinity t =>
      cases s <;> cases t
      · exact .inl rfl
      · exact .inr rfl
      · exact .inr rfl
      · exact .inl rfl
    | notANumber => exact .inr rfl
    | _ => exact .inl rfl

theorem addSecond (stray : v.isFinite = false) :
    UnpackedFloat.add .binary32 u v = v ∨ UnpackedFloat.add .binary32 u v = .notANumber := by
  cases v with
  | zero s => contradiction
  | finite s m e positive => contradiction
  | notANumber => cases u <;> exact .inl rfl
  | infinity t =>
    cases u with
    | infinity s =>
      cases s <;> cases t
      · exact .inl rfl
      · exact .inr rfl
      · exact .inr rfl
      · exact .inl rfl
    | notANumber => exact .inr rfl
    | _ => exact .inl rfl

end

section
variable {x y : Scalar}

theorem sumSpelled (x y : Scalar) :
    x + y = .ofModel (.pack (.add .binary32 x.toModel.unpack y.toModel.unpack)) := rfl

theorem sumNumbers (number : Float32.isNaN (x + y) = false) : Float32.isNaN x = false ∧ Float32.isNaN y = false :=
  ⟨Bool.eq_false_iff.mpr fun nan => Bool.false_ne_true (number.symm.trans (nanSum (.inl nan))),
    Bool.eq_false_iff.mpr fun nan => Bool.false_ne_true (number.symm.trans (nanSum (.inr nan)))⟩

theorem sumStray (number : Float32.isNaN (x + y) = false)
    (stray : Float32.isFinite x = false ∨ Float32.isFinite y = false) :
    x + y = x ∨ Float32.isFinite y = false ∧ x + y = y := by
  have none : Float32.isNaN (.ofModel (.pack .notANumber)) = true := by decide +kernel
  rw [sumSpelled] at number ⊢
  rcases stray with strayX | strayY
  · rcases @addFirst x.toModel.unpack y.toModel.unpack strayX with same | lost
    · rw [same]
      exact .inl (packedAgain x)
    · rw [lost,none] at number
      contradiction
  · rcases @addSecond x.toModel.unpack y.toModel.unpack strayY with same | lost
    · rw [same]
      exact .inr ⟨strayY,packedAgain y⟩
    · rw [lost,none] at number
      contradiction

theorem strayEnds (numberX : Float32.isNaN x = false) (numberY : Float32.isNaN y = false)
    (stray : Float32.isFinite y = false) : (0 ≤ y → x ≤ y) ∧ (y ≤ 0 → y ≤ x) := by
  have outside : ¬(lowest ≤ y ∧ y ≤ greatest) := by simp [← finiteIff,stray]
  rw [leIff lowestNumber numberY,leIff numberY greatestNumber,rankLowest,rankGreatest] at outside
  rw [leIff zeroNumber numberY,leIff numberX numberY,leIff numberY zeroNumber,leIff numberY numberX,rankZero]
  have within := rankWithin (magnitude numberX)
  omega

theorem sumSides (number : Float32.isNaN (x + y) = false) : (0 ≤ y → x ≤ x + y) ∧ (y ≤ 0 → x + y ≤ x) := by
  obtain ⟨numberX,numberY⟩ := sumNumbers number
  by_cases stray : Float32.isFinite x = false ∨ Float32.isFinite y = false
  · rcases sumStray number stray with same | ⟨strayY,same⟩
    · rw [same]
      exact ⟨fun _ => leSelf numberX,fun _ => leSelf numberX⟩
    · rw [same]
      exact strayEnds numberX numberY strayY
  · simp only [not_or,Bool.not_eq_false] at stray
    have none : count 0 = 0 := rfl
    have own := placedCount numberX
    have sum := sumCount stray.1 stray.2
    refine ⟨fun above => ?_,fun below => ?_⟩
    · have more := countMono above
      exact (placedLe own sum).mpr (mirroredMono levelMono (by omega))
    · have less := countMono below
      exact (placedLe sum own).mpr (mirroredMono levelMono (by omega))

end
end Scalar

namespace Split

/-- The loop between two turns: the numbers that were tried so far, and the one that is up next until it has ended. -/
structure Sweep where
  tried : List Scalar
  next : Option Scalar
  deriving DecidableEq, Repr

namespace Sweep

def turn (step limit : Scalar) (l : Sweep) : Sweep :=
  match l.next with
  | none => l
  | some x =>
    if x < limit then ⟨l.tried ++ [x],if x + step ≤ x then none else some (x + step)⟩
    else ⟨l.tried,none⟩

structure Rising (limit : Scalar) (l : Sweep) : Prop where
  rising : l.tried.Pairwise (· < ·)
  below : ∀ v ∈ l.tried, v < limit
  ahead : ∀ x, l.next = some x → ∀ v ∈ l.tried, ¬x ≤ v

section
variable {step limit x : Scalar} {l : Sweep} {tried : List Scalar}

theorem turnPast (past : ¬x < limit) : turn step limit ⟨tried,some x⟩ = ⟨tried,none⟩ := if_neg past

theorem turnLost (below : x < limit) (lost : x + step ≤ x) :
    turn step limit ⟨tried,some x⟩ = ⟨tried ++ [x],none⟩ := by
  simp [turn,below,lost]

theorem turnGained (below : x < limit) (gains : ¬x + step ≤ x) :
    turn step limit ⟨tried,some x⟩ = ⟨tried ++ [x],some (x + step)⟩ := by
  simp [turn,below,gains]

theorem turnRising (rising : l.Rising limit) : (l.turn step limit).Rising limit := by
  obtain ⟨tried,next⟩ := l
  cases next with
  | none => exact rising
  | some x =>
    by_cases below : x < limit
    · have behind : ∀ v ∈ tried, v < x := fun v member =>
        Scalar.ltOfNotLe (Scalar.ltNumbers (rising.below v member)).1 (Scalar.ltNumbers below).1
          (rising.ahead x rfl v member)
      have more : (tried ++ [x]).Pairwise (· < ·) :=
        List.pairwise_append.mpr ⟨rising.rising,List.pairwise_singleton _ _,by simpa using behind⟩
      have bounded : ∀ v ∈ tried ++ [x], v < limit := List.forall_mem_append.mpr ⟨rising.below,by simpa using below⟩
      by_cases lost : x + step ≤ x
      · rw [turnLost below lost]
        exact ⟨more,bounded,fun y none => nomatch none⟩
      · rw [turnGained below lost]
        -- the sum may be no number: it is only known not to fall back
        refine ⟨more,bounded,fun y next v member back => ?_⟩
        cases Option.some.inj next
        rcases List.mem_append.mp member with earlier | last
        · exact lost (Scalar.leTrans back (Scalar.leOfLt (behind v earlier)))
        · cases List.mem_singleton.mp last
          exact lost back
    · rw [turnPast below]
      exact ⟨rising.rising,rising.below,fun y none => nomatch none⟩

theorem turnsRising (rising : l.Rising limit) (turns : Nat) : ((turn step limit)^[turns] l).Rising limit := by
  induction turns generalizing l with
  | zero => exact rising
  | succ turns ih => exact ih (turnRising rising)

theorem turnsEnded (turns : Nat) : (turn step limit)^[turns] ⟨tried,none⟩ = ⟨tried,none⟩ := by
  induction turns with
  | zero => rfl
  | succ turns ih => exact ih

/- The last turn is the one that finds the limit passed, or the step lost. What was tried before stays in front. -/
theorem turnsSamples {turns : Nat} (enough : (samples step limit x).length < turns) :
    (turn step limit)^[turns] ⟨tried,some x⟩ = ⟨tried ++ samples step limit x,none⟩ := by
  induction x using samples.induct step limit generalizing tried turns with
  | case1 x below ih =>
    obtain ⟨later,rfl⟩ := Nat.exists_eq_succ_of_ne_zero (Nat.ne_zero_of_lt enough)
    by_cases lost : x + step ≤ x
    · rw [Function.iterate_succ_apply,turnLost below lost,turnsEnded,samplesLost below lost]
    · rw [samplesMore below lost,List.length_cons] at enough
      rw [Function.iterate_succ_apply,turnGained below lost,ih lost (by omega),samplesMore below lost]
      simp
  | case2 x past =>
    obtain ⟨later,rfl⟩ := Nat.exists_eq_succ_of_ne_zero (Nat.ne_zero_of_lt enough)
    rw [Function.iterate_succ_apply,turnPast past,turnsEnded,samples,dif_neg past,List.append_nil]

end
end Sweep

section
variable {step limit x top : Scalar} {vs : List Scalar} {n : Nat}

theorem samplesRising : (samples step limit x).Pairwise (· < ·) ∧ ∀ v ∈ samples step limit x, v < limit := by
  have fresh : Sweep.Rising limit ⟨[],some x⟩ := ⟨.nil,nofun,fun y next v none => nomatch none⟩
  have ended := @Sweep.turnsRising step limit _ fresh ((samples step limit x).length + 1)
  rw [Sweep.turnsSamples (Nat.lt_succ_self _)] at ended
  exact ⟨ended.rising,ended.below⟩

theorem samplesFrom : ∀ v ∈ samples step limit x, x ≤ v := by
  intro v member
  have rising := (@samplesRising step limit x).1
  by_cases below : x < limit
  · rw [samples,dif_pos below] at member rising
    rcases List.mem_cons.mp member with rfl | later
    · exact Scalar.leSelf (Scalar.ltNumbers below).1
    · exact Scalar.leOfLt ((List.pairwise_cons.mp rising).1 v later)
  · simp [samples,below] at member

theorem samplesOnce (stuck : ¬0 < step) : (samples step limit x).length ≤ 1 := by
  by_cases below : x < limit
  · by_cases lost : x + step ≤ x
    · simp [samplesLost below lost]
    · have none : ¬x + step < limit := by
        intro next
        have number := (Scalar.ltNumbers next).1
        have negative := Scalar.leOfNotLt (Scalar.sumNumbers number).2 Scalar.zeroNumber stuck
        exact lost ((Scalar.sumSides number).2 negative)
      simp [samplesMore below lost,samples,none]
  · simp [samples,below]

theorem risingLength (rising : vs.Pairwise (· < ·)) (between : ∀ v ∈ vs, n ≤ Scalar.rank v ∧ v < top) :
    vs.length ≤ Scalar.rank top - n := by
  induction vs generalizing n with
  | nil => exact Nat.zero_le _
  | cons v rest ih =>
    obtain ⟨first,rising⟩ := List.pairwise_cons.mp rising
    obtain ⟨⟨low,high⟩,between⟩ := List.forall_mem_cons.mp between
    -- each number takes one place of the order away from those that follow
    have few := @ih (n + 1) rising fun w member =>
      ⟨Nat.lt_of_le_of_lt low (Scalar.rankLt (first w member)),(between w member).2⟩
    have room := Scalar.rankLt high
    rw [List.length_cons]
    omega

end

structure Swept (start stop step : Scalar) (tried : List Scalar) : Prop where
  ends : ∀ turns > tried.length,
    (Sweep.turn step (stop - step))^[turns] ⟨[],some (start + step)⟩ = ⟨tried,none⟩
  rising : tried.Pairwise (· < ·)
  below : ∀ v ∈ tried, v < stop - step
  above : 0 < step → ∀ v ∈ tried, start ≤ v
  few : 0 < step → tried.length ≤ Scalar.rank (stop - step) - Scalar.rank start
  once : ¬0 < step → tried.length ≤ 1

def tries (bounds : Box) (depth : Nat) (a : Axis) : List Scalar :=
  ((candidates bounds depth).filter (·.axis = a)).map Split.value

section
variable {start stop step : Scalar} {bounds : Box} {depth : Nat} {a : Axis}

theorem samplesSwept : Swept start stop step (samples step (stop - step) (start + step)) := by
  obtain ⟨rising,below⟩ := @samplesRising step (stop - step) (start + step)
  have above : 0 < step → ∀ v ∈ samples step (stop - step) (start + step), start ≤ v := by
    intro positive v member
    have first := samplesFrom v member
    exact Scalar.leTrans ((Scalar.sumSides (Scalar.leNumbers first).1).1 (Scalar.leOfLt positive)) first
  refine ⟨fun turns enough => Sweep.turnsSamples enough,rising,below,above,fun positive => ?_,samplesOnce⟩
  refine risingLength rising fun v member => ⟨?_,below v member⟩
  have low := above positive v member
  exact (Scalar.leIff (Scalar.leNumbers low).1 (Scalar.leNumbers low).2).mp low

theorem triesGrid : tries bounds depth a = grid (bounds.bottom.component a) (bounds.top.component a) depth := by
  have own (b : Axis) (vs : List Scalar) :
      ((vs.map (mk b)).filter (·.axis = a)).map Split.value = if b = a then vs else [] := by
    by_cases same : b = a <;> simp [List.filter_map,Function.comp_def,same]
  rw [tries,candidatesAlong]
  cases a <;> simp [own,Vec3.component]

theorem samplingEnds (bounds : Box) (depth : Nat) (a : Axis) :
    (Float32.abs (bounds.top.component a - bounds.bottom.component a) < flatness → tries bounds depth a = []) ∧
    (¬Float32.abs (bounds.top.component a - bounds.bottom.component a) < flatness →
      Swept (bounds.bottom.component a) (bounds.top.component a)
        (spacing (bounds.bottom.component a) (bounds.top.component a) depth) (tries bounds depth a)) := by
  rw [triesGrid]
  refine ⟨fun flat => if_pos flat,fun wide => ?_⟩
  rw [grid,if_neg wide]
  exact samplesSwept

theorem strayTried : tries ⟨⟨1,0,0⟩,⟨0,0,0⟩⟩ 1023 .x = [0] ∧ Swept 1 0 (-1) [0] ∧
    tries ⟨⟨0,1073741824,0⟩,⟨0,1073741952,0⟩⟩ 0 .y = [1073741824] ∧
      Swept 1073741824 1073741952 0.125 [1073741824] := by
  have around : tries ⟨⟨1,0,0⟩,⟨0,0,0⟩⟩ 1023 .x = [0] := by
    rw [triesGrid]
    show grid 1 0 1023 = [0]
    rw [grid,if_neg (by decide +kernel),samplesLost (by decide +kernel) (by decide +kernel)]
    decide +kernel
  have away : tries ⟨⟨0,1073741824,0⟩,⟨0,1073741952,0⟩⟩ 0 .y = [1073741824] := by
    rw [triesGrid]
    show grid 1073741824 1073741952 0 = [1073741824]
    rw [grid,if_neg (by decide +kernel),samplesLost (by decide +kernel) (by decide +kernel)]
    decide +kernel
  have first : Swept 1 0 (spacing 1 0 1023) _ := (samplingEnds ⟨⟨1,0,0⟩,⟨0,0,0⟩⟩ 1023 .x).2 (by decide +kernel)
  have second : Swept 1073741824 1073741952 (spacing 1073741824 1073741952 0) _ :=
    (samplingEnds ⟨⟨0,1073741824,0⟩,⟨0,1073741952,0⟩⟩ 0 .y).2 (by decide +kernel)
  have back : spacing 1 0 1023 = -1 := by decide +kernel
  have small : spacing 1073741824 1073741952 0 = 0.125 := by decide +kernel
  rw [around,back] at first
  rw [away,small] at second
  exact ⟨around,first,away,second⟩

end

end Split
end Sightline
