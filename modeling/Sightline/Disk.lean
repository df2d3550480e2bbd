/-! What a program asks of a disk: the bytes of a file, a file with given bytes, and a file less. The
operations belong to some kind of computation, so the same program runs on a real disk and on one that
is only a value. A failure is told apart only as far as anything depends on it. -/
namespace Sightline

inductive IoFailure where
  | notFound
  | isADirectory
  | refused
  deriving DecidableEq, Repr

def IoFailure.message : IoFailure → String
  | notFound => "no such file"
  | isADirectory => "is a directory"
  | refused => "refused"

structure Disk (m : Type → Type) where
  read : String → m (Except IoFailure (List UInt8))
  write : String → List UInt8 → m (Except IoFailure Unit)
  remove : String → m Unit

end Sightline
