import Metrology.Catalog.Basic
import Metrology.Text.Lines
import Metrology.Text.Split

/-! # Folders

The documents that a program finds where it runs, by their paths. A path is followed part by part. It may
leave the folder upwards; of what lies outside only the usual directories at the root are known.
-/
namespace Metrology

abbrev Folder := List (String × String)

/-- How far a path has led: to a directory of the folder, to one above it, or to a directory at the root. -/
inductive Place where
  | inside (parts : List String)
  | above
  | root
  | atRoot
  | document (text : String)

namespace Folder

def rootDirectories : List String :=
  ["bin", "dev", "etc", "home", "lib", "mnt", "opt", "proc", "root", "run", "sbin", "srv", "sys", "tmp", "usr", "var"]

def partLimit : Nat := 255

def pathLimit : Nat := 4095

def isWithin (path directory : String) : Bool := (directory ++ "/").toList.isPrefixOf path.toList

def enter (f : Folder) (parts : List String) (part : String) : Except Obstacle Place :=
  let path := "/".intercalate (parts ++ [part])
  match f.lookup path with
  | some text => .ok (.document text)
  | none => if f.any fun d => isWithin d.1 path then .ok (.inside (parts ++ [part])) else .error .missing

def follow (f : Folder) (place : Place) (part : String) : Except Obstacle Place :=
  match place with
  | .document _ => .error .notADirectory
  | place =>
    if part = ".." then
      match place with
      | .inside [] => .ok .above
      | .inside parts => .ok (.inside parts.dropLast)
      | .atRoot => .ok .root
      | place => .ok place
    else if partLimit < part.utf8ByteSize then .error .tooLong
    else
      match place with
      | .inside parts => f.enter parts part
      | .root => if rootDirectories.contains part then .ok .atRoot else .error .missing
      | _ => .error .missing

def followAll (f : Folder) (place : Place) : List String → Except Obstacle Place
  | [] => .ok place
  | part :: rest =>
    match f.follow place part with
    | .ok place => f.followAll place rest
    | .error o => .error o

/-- The place that a path leads to; empty parts and single points lead nowhere. -/
def find (f : Folder) (path : String) : Except Obstacle Place :=
  let parts := ((Text.splitAt '/' path.toList).map String.ofList).filter fun part => part != "" && part != "."
  if pathLimit < path.utf8ByteSize then .error .tooLong
  else f.followAll (if path.startsWith "/" then .root else .inside []) parts

def read (f : Folder) (path : String) : Except Obstacle String :=
  match f.find path with
  | .ok (.document text) => .ok (String.ofList (Text.unifyLineEnds text.toList))
  | .ok _ => .error .directory
  | .error o => .error o

end Folder

end Metrology
