import Metrology.Text.Split

/-! # Paths

A path is written without empty parts and without parts that stand for the same place. It is absolute if it
starts with a slash; exactly two slashes at its start are kept, more count as one.
-/
namespace Metrology.Path

def parts (text : String) : List String :=
  ((Text.splitAt '/' text.toList).map String.ofList).filter fun p => p != "" && p != "."

def root (text : String) : String :=
  match (text.toList.takeWhile fun c => c == '/').length with
  | 0 => ""
  | 2 => "//"
  | _ => "/"

/-- The usual way to write a path; the path of the current place is a single point. -/
def normalize (text : String) : String :=
  let path := root text ++ "/".intercalate (parts text)
  if path.isEmpty then "." else path

end Metrology.Path
