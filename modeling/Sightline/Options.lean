import Sightline.Tile
import Sightline.Text.Numeral
/-! The command line. Arguments are taken from left to right, and the first one that asks for help or
that cannot be taken decides. A switch stands alone; an option takes a value, either joined to it or as
the next argument, which must not look like an option itself. Single letters can be joined, up to and
including one that takes a value. After two dashes every argument is the scene. Nothing may be given
twice, and the scene must be given. -/
namespace Sightline

structure Options where
  scene : String
  output : String
  width : UInt32
  height : UInt32
  tileSize : UInt32
  rebuild : Bool
  shadows : Bool
  reflections : Bool
  refractions : Bool
  deriving DecidableEq, Repr

namespace Options

inductive Refusal where
  | help
  | misuse
  deriving DecidableEq, Repr

inductive Switch where
  | rebuild
  | noShadows
  | noReflections
  | refractions
  deriving DecidableEq, Repr

inductive Setting where
  | output
  | width
  | height
  | tileSize
  deriving DecidableEq, Repr

inductive Named where
  | help
  | switch (s : Switch)
  | setting (s : Setting)
  deriving DecidableEq, Repr

def Named.ofName? : String → Option Named
  | "help" => some .help
  | "force-recalc" => some (.switch .rebuild)
  | "no-shadows" => some (.switch .noShadows)
  | "no-reflections" => some (.switch .noReflections)
  | "refractions" => some (.switch .refractions)
  | "output" => some (.setting .output)
  | "width" => some (.setting .width)
  | "height" => some (.setting .height)
  | "bucket-size" => some (.setting .tileSize)
  | _ => none

def Named.ofLetter? : Char → Option Named
  | 'h' => some .help
  | 'f' => some (.switch .rebuild)
  | 'o' => some (.setting .output)
  | _ => none

structure Given where
  scene : Option String
  output : Option String
  width : Option UInt32
  height : Option UInt32
  tileSize : Option UInt32
  switches : List Switch
  deriving DecidableEq, Repr

namespace Given

def nothing : Given := ⟨none,none,none,none,none,[]⟩

def once (old : Option α) (value : α) : Except Refusal (Option α) :=
  match old with
  | none => .ok (some value)
  | some _ => .error .misuse

def path (text : String) : Except Refusal String := if text = "" then .error .misuse else .ok text

def word (text : String) : Except Refusal UInt32 :=
  match Text.long? text.toList with
  | some n => if 0 ≤ n ∧ n < 4294967296 then .ok n.toNat.toUInt32 else .error .misuse
  | none => .error .misuse

def withScene (g : Given) (text : String) : Except Refusal Given := do
  return { g with scene := ← once g.scene (← path text) }

def assign (g : Given) (value : String) : Setting → Except Refusal Given
  | .output => do return { g with output := ← once g.output (← path value) }
  | .width => do return { g with width := ← once g.width (← word value) }
  | .height => do return { g with height := ← once g.height (← word value) }
  | .tileSize => do return { g with tileSize := ← once g.tileSize (← word value) }

def turn (g : Given) (s : Switch) : Except Refusal Given :=
  if g.switches.contains s then .error .misuse else .ok { g with switches := s :: g.switches }

def letters (g : Given) : List Char → Except Refusal (Given × Option Setting)
  | [] => .ok (g,none)
  | c :: rest =>
    match Named.ofLetter? c, rest with
    | none, _ => .error .misuse
    | some .help, _ => .error .help
    | some (.switch s), rest => do letters (← g.turn s) rest
    | some (.setting s), [] => .ok (g,some s)
    | some (.setting s), '=' :: value => do return (← g.assign (String.ofList value) s,none)
    | some (.setting s), value => do return (← g.assign (String.ofList value) s,none)

def long (g : Given) (name : List Char) (value : Option (List Char)) :
    Except Refusal (Given × Option Setting) :=
  match Named.ofName? (String.ofList name), value with
  | none, _ => .error .misuse
  | some .help, none => .error .help
  | some (.switch s), none => do return (← g.turn s,none)
  | some (.setting s), none => .ok (g,some s)
  | some (.setting s), some v => do return (← g.assign (String.ofList v) s,none)
  | some _, some _ => .error .misuse

def dashed (g : Given) : List Char → Except Refusal (Given × Option Setting)
  | '-' :: name =>
    let value := name.dropWhile (· != '=')
    g.long (name.takeWhile (· != '=')) (if value.isEmpty then none else some (value.drop 1))
  | cs => g.letters cs

def plain (g : Given) (args : List String) : Except Refusal Given := args.foldlM withScene g

def take (g : Given) : List String → Except Refusal Given
  | [] => .ok g
  | arg :: rest =>
    match arg.toList, rest with
    | ['-','-'], rest => g.plain rest
    | '-' :: c :: cs, rest =>
      match g.dashed (c :: cs), rest with
      | .error why, _ => .error why
      | .ok (g,none), rest => g.take rest
      | .ok (_,some _), [] => .error .misuse
      | .ok (g,some s), value :: rest =>
        match value.toList with
        | '-' :: _ :: _ => .error .misuse
        | _ => do (← g.assign value s).take rest
    | _, rest => do (← g.withScene arg).take rest

def finish (g : Given) : Except Refusal Options :=
  match g.scene with
  | none => .error .misuse
  | some scene => .ok {
      scene
      output := g.output.getD "render.png"
      width := g.width.getD 800
      height := g.height.getD 600
      tileSize := g.tileSize.getD Tile.standardSize
      rebuild := g.switches.contains .rebuild
      shadows := !g.switches.contains .noShadows
      reflections := !g.switches.contains .noReflections
      refractions := g.switches.contains .refractions }

end Given

def read (args : List String) : Except Refusal Options := do (← Given.nothing.take args).finish

end Options
end Sightline
