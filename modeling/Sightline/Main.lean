import Sightline.Session
/-! The program on the command line: a session on the disk of the machine. Only here is anything read,
written or printed. -/
namespace Sightline

def whyFailed : IO.Error → IoFailure
  | .noFileOrDirectory .. => .notFound
  | .inappropriateType .. => .isADirectory
  | _ => .refused

def realDisk : Disk IO where
  read path := do
    try
      return .ok (← IO.FS.readBinFile path).toList
    catch e => return .error (whyFailed e)
  write path bytes := do
    try
      IO.FS.writeBinFile path ⟨bytes.toArray⟩
      return .ok ()
    catch e => return .error (whyFailed e)
  remove path := do
    try IO.FS.removeFile path catch _ => return ()

def usage : String :=
  "Usage: sightline [OPTIONS] <SCENE>\n\n" ++
  "  -o, --output <OUTPUT>            picture to write, a PNG or BMP file [default: render.png]\n" ++
  "      --width <WIDTH>              width in pixels [default: 800]\n" ++
  "      --height <HEIGHT>            height in pixels [default: 600]\n" ++
  "  -f, --force-recalc               build the hierarchy although it is cached\n" ++
  "      --no-shadows                 leave out shadows\n" ++
  "      --no-reflections             leave out reflections\n" ++
  "      --refractions                see through surfaces\n" ++
  "      --bucket-size <BUCKET_SIZE>  edge of a tile in pixels [default: 64]\n" ++
  "  -h, --help                       print this text"

def report : Ending → IO Unit
  | .done => return ()
  | .refused .help => IO.println usage
  | .refused .misuse => IO.eprintln usage
  | .failed why => do
    IO.eprintln ("Error: " ++ why.message)
    if let some cause := why.cause? then IO.eprintln ("Caused by: " ++ cause)

end Sightline

def main (args : List String) : IO UInt32 := do
  let ending ← Sightline.Session.command Sightline.realDisk args
  Sightline.report ending
  return ending.exitCode.toUInt32
