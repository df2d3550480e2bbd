/-! What can go wrong when a structure is used without having been checked. Each fault names one
broken reference or one number that no longer fits a word; a computation that meets a fault has no
result. Checked structures have none, which is what the checks are for. -/
namespace Sightline

inductive Fault where
  | noVertex (index : UInt32)
  | noTriangle (index : UInt32)
  | noNode (index : UInt32)
  | leafPastEnd (start count : UInt32)
  | stackFull
  | endlessWalk
  | noPixel (x y : UInt32)
  | wordOverflow
  | emptyTile
  deriving DecidableEq, Repr

def Fault.look (xs : Array α) (index : UInt32) (fault : UInt32 → Fault) : Except Fault α :=
  match xs[index.toNat]? with
  | some x => .ok x
  | none => .error (fault index)

theorem Fault.lookInside {xs : Array α} {index : UInt32} (fault : UInt32 → Fault)
    (h : index.toNat < xs.size) : look xs index fault = .ok xs[index.toNat] := by
  simp [look,h]

theorem Fault.lookFound {xs : Array α} {index : UInt32} {fault : UInt32 → Fault} {x : α}
    (found : look xs index fault = .ok x) : xs[index.toNat]? = some x := by
  unfold look at found
  split at found
  · cases Except.ok.inj found
    assumption
  · contradiction

theorem Fault.bindOk {first : Except ε α} {next : α → Except ε β} {y : β}
    (h : first >>= next = .ok y) : ∃ x, first = .ok x ∧ next x = .ok y := by
  cases first with
  | error fault => exact (nomatch h)
  | ok x => exact ⟨x,rfl,h⟩

theorem Fault.mapOk {first : Except ε α} {f : α → β} {y : β} (h : first.map f = .ok y) :
    ∃ x, first = .ok x ∧ f x = y := by
  cases first with
  | error fault => exact (nomatch h)
  | ok x => exact ⟨x,rfl,Except.ok.inj h⟩

theorem Fault.bindError {first : Except Fault α} {next : α → Except Fault β} {fault : Fault}
    (h : first >>= next = .error fault) :
    first = .error fault ∨ ∃ x, first = .ok x ∧ next x = .error fault := by
  cases first with
  | error other => exact .inl (congrArg Except.error (Except.error.inj h))
  | ok x => exact .inr ⟨x,rfl,h⟩

def Fault.addWords (a b : UInt32) : Except Fault UInt32 :=
  if a.toNat + b.toNat < 4294967296 then .ok (a + b) else .error .wordOverflow

def Fault.mulWords (a b : UInt32) : Except Fault UInt32 :=
  if a.toNat * b.toNat < 4294967296 then .ok (a * b) else .error .wordOverflow

theorem Fault.addWordsOk {a b c : UInt32} (h : addWords a b = .ok c) :
    c.toNat = a.toNat + b.toNat := by
  unfold addWords at h
  split at h
  · cases h
    simp only [UInt32.toNat_add]
    omega
  · contradiction

theorem Fault.mulWordsOk {a b c : UInt32} (h : mulWords a b = .ok c) :
    c.toNat = a.toNat * b.toNat := by
  unfold mulWords at h
  split at h
  · cases h
    simp only [UInt32.toNat_mul]
    omega
  · contradiction

end Sightline
