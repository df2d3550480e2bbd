import Sightline.Cache
import Sightline.Files
import Sightline.Image.Format
import Sightline.Obj
import Sightline.Options
import Sightline.Render
/-! One run of the program: a model is read and made ready for viewing, its hierarchy comes from the
cache or is built, the picture is rendered and saved. The first step that fails ends the run; what was
written before stays. The cache file is written as soon as the hierarchy is there, so it also remains
when the picture cannot be saved. -/
namespace Sightline

inductive Failure where
  | load (path : String) (cause : ObjError)
  | build (cause : BuildError)
  | render (cause : Fault)
  | save (path : String)
  deriving DecidableEq, Repr

namespace Failure

def message : Failure → String
  | load path _ => "Failed to load " ++ path
  | build cause => cause.message
  | render _ => "Failed to render"
  | save path => "Failed to write " ++ path

def cause? : Failure → Option String
  | load _ cause => some cause.message
  | _ => none

end Failure

inductive Ending where
  | done
  | refused (why : Options.Refusal)
  | failed (why : Failure)
  deriving DecidableEq, Repr

def Ending.exitCode : Ending → Nat
  | done => 0
  | refused .help => 0
  | refused .misuse => 2
  | failed (.render _) => 101
  | failed _ => 1

namespace Session

def remembered (found : List (String × Except IoFailure (List UInt8))) (path : String) :
    Except IoFailure (List UInt8) := (found.lookup path).getD (.error .notFound)

def readMesh [Monad m] (disk : Disk m) (path : String) : m (Except ObjError Mesh) := do
  let text ← disk.read path
  let names := (text.toOption.map Obj.libraries).getD []
  let found ← names.mapM fun name => do
    let beside := Path.beside path name
    return (beside,← disk.read beside)
  return Obj.load (remembered ((path,text) :: found)) path

def surfaceColor : Color := .splat 0.8

def distance : Scalar := 4 * Mesh.viewingSize

def sceneOf (mesh : Mesh) (source : String) : Scene :=
  ((Scene.ofMesh (mesh.recenterAndRescale Mesh.viewingSize) surfaceColor).withSource source).withLight
    ⟨.splat distance⟩

def camera (o : Options) : Camera :=
  ((Camera.standard.withResolution o.width o.height).withPosition ⟨0,0,distance⟩ .zero .unitY).aim

def settings (o : Options) : Settings :=
  { Settings.standard with
    shadows := o.shadows
    reflections := o.reflections
    refractions := o.refractions
    tileSize := o.tileSize }

/-- What lies at the place of the cache. That it can be written is not known before it is tried. -/
def slotOf : Except IoFailure (List UInt8) → Cache.Slot
  | .ok bytes => ⟨.file bytes,true,true,true⟩
  | .error .notFound => ⟨.missing,true,true,true⟩
  | .error .isADirectory => ⟨.directory,true,true,true⟩
  | .error .refused => ⟨.file [],false,true,true⟩

def settle [Monad m] (disk : Disk m) (path : String) : Cache.Entry → m Unit
  | .file bytes => do
    match ← disk.write path bytes with
    | .ok _ => return ()
    | .error _ => disk.remove path
  | .missing => disk.remove path
  | .directory => return ()

def prepare [Monad m] (disk : Disk m) (scene : Scene) (source : String) (force : Bool) :
    m (Except BuildError Hierarchy) := do
  let path := Cache.pathOf source
  let slot := slotOf (← disk.read path)
  let u := Cache.update scene force slot
  if u.slot ≠ slot then settle disk path u.slot.entry
  return u.result

def run [Monad m] (disk : Disk m) (o : Options) : m (Except Failure Unit) := do
  match ← readMesh disk o.scene with
  | .error cause => return .error (.load o.scene cause)
  | .ok mesh =>
    let scene := sceneOf mesh o.scene
    match ← prepare disk scene o.scene o.rebuild with
    | .error cause => return .error (.build cause)
    | .ok hierarchy =>
      let view := camera o
      match Image.render view ⟨scene,hierarchy,settings o,view.eye⟩ with
      | .error cause => return .error (.render cause)
      | .ok picture =>
        if ← picture.save disk o.output then return .ok ()
        else return .error (.save o.output)

def command [Monad m] (disk : Disk m) (args : List String) : m Ending := do
  match Options.read args with
  | .error why => return .refused why
  | .ok o =>
    match ← run disk o with
    | .ok _ => return .done
    | .error why => return .failed why

end Session
end Sightline
