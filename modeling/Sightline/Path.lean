import Sightline.Text.Blank
/-! File paths as text. Parts are separated by slashes; empty parts and single dots name nothing. A
path that starts with a slash stands for itself wherever it is used. The ending of a file name is what
follows its last dot, unless there is nothing before that dot. -/
namespace Sightline.Path
open Text

def isAbsolute (path : String) : Bool := path.startsWith "/"

def pieces (path : String) : List String := (cut (· == '/') path.toList).map String.ofList

def parts (path : String) : List String := (pieces path).filter fun p => p != "" && p != "."

def join (folder path : String) : String :=
  if isAbsolute path || folder == "" then path
  else if folder.endsWith "/" then folder ++ path
  else folder ++ "/" ++ path

def folderOf (path : String) : String :=
  let inner := String.intercalate "/" (parts path).dropLast
  if isAbsolute path then "/" ++ inner else inner

def beside (path name : String) : String := join (folderOf path) name

def fileName? (path : String) : Option String :=
  (parts path).getLast?.filter (· != "..")

def endingOf? (name : String) : Option String :=
  match cut (· == '.') name.toList with
  | [] => none
  | [_] => none
  | [[],_] => none
  | pieces => (pieces.getLast?).map String.ofList

def ending? (path : String) : Option String := (fileName? path).bind endingOf?

end Sightline.Path
