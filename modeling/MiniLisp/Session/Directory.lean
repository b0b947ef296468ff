/-!
# Directories

A directory held in memory, and what reading a path in it gives. A path is a list of names
between slashes; empty names and single dots lead nowhere.
-/

namespace MiniLisp

/-- Why a path cannot be read. -/
inductive PathError where
  | missing | isDirectory | notDirectory
deriving DecidableEq, Repr

/-- What is said of a path that cannot be read. -/
def PathError.reason : PathError → String
  | missing => "No such file or directory"
  | isDirectory => "Is a directory"
  | notDirectory => "Not a directory"

/-- The pieces of a text between slashes, `piece` being what is read of the current one, last
character first. -/
def splitSlashes (piece : List Char) : List Char → List (List Char)
  | [] => [piece.reverse]
  | c :: cs => if c = '/' then piece.reverse :: splitSlashes [] cs else splitSlashes (c :: piece) cs

/-- A path without what leads nowhere. -/
structure Path where
  /-- The slashes it begins with: none, one, or exactly two. -/
  root : String
  names : List String
deriving DecidableEq, Repr

namespace Path

/-- The slashes that a path keeps at its beginning. -/
def rootOf : List Char → String
  | '/' :: '/' :: '/' :: _ => "/"
  | '/' :: '/' :: _ => "//"
  | '/' :: _ => "/"
  | _ => ""

/-- The path that a text stands for. -/
def ofString (text : String) : Path :=
  ⟨rootOf text.toList,
    ((splitSlashes [] text.toList).map String.ofList).filter fun name => name ≠ "" && name ≠ "."⟩

/-- The text of a path; the empty one is a dot. -/
def text (p : Path) : String :=
  if p.root = "" && p.names.isEmpty then "." else p.root ++ "/".intercalate p.names

end Path

/-- The files and directories below one directory, each under its names from there. -/
structure Directory where
  files : List (List String × ByteArray)
  directories : List (List String)

namespace Directory

/-- Whether there is a directory under the names: one of its own, or one that something lies
in. -/
def holdsDirectory (d : Directory) (names : List String) : Bool :=
  names.isEmpty || d.directories.any names.isPrefixOf
    || d.files.any fun file => names.isPrefixOf file.1 && names ≠ file.1

/-- What is under names of which nothing is known but that those around a directory hold it. -/
def outside (names : List String) : Except PathError ByteArray :=
  if names.all (· == "..") then .error .isDirectory else .error .missing

/-- What is under the rest of a path from a directory on, whose names are reversed. -/
def follow (d : Directory) (place : List String) : List String → Except PathError ByteArray
  | [] => .error .isDirectory
  | name :: rest =>
    if name = ".." then
      match place with
      | [] => outside rest
      | _ :: place => follow d place rest
    else if d.holdsDirectory (name :: place).reverse then follow d (name :: place) rest
    else
      match d.files.lookup (name :: place).reverse with
      | none => .error .missing
      | some bytes => if rest.isEmpty then .ok bytes else .error .notDirectory

/-- The content of the file at a path. -/
def read (d : Directory) (path : Path) : Except PathError ByteArray :=
  if path.root = "" then d.follow [] path.names else outside path.names

end Directory

example : (Path.ofString "a//./b/").text = "a/b" := by decide +kernel
example : (Path.ofString "").text = "." := by decide +kernel

end MiniLisp
