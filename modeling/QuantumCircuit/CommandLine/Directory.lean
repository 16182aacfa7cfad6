import QuantumCircuit.CommandLine.Run

namespace QuantumCircuit
namespace CommandLine

/-!
# Files

Files and folders stand in a tree under names, counted from its root.  A run has a
folder that it works in.  A path begins there, or at the root if it begins with a
slash, and leads through folders only: `.` stays and `..` goes back, where the root
lies above itself.  There are no links.

A directory is a list of files.  A run in a directory works in a tree that has nothing
else in it.
-/

/-- What stands under names. -/
inductive Node where
  | missing
  | folder
  | file (content : ByteArray)

/-- A tree of files. -/
structure FileTree where
  node : List String → Node
  /-- The folder in which a run works. -/
  home : List String
  readable : List String → Bool
  writable : List String → Bool

/-- The parts of a path between its slashes. -/
def pathParts : List Char → List (List Char)
  | [] => [[]]
  | c :: rest =>
    if c = '/' then [] :: pathParts rest
    else
      match pathParts rest with
      | part :: parts => (c :: part) :: parts
      | [] => [[c]]

namespace FileTree

/-- One step of a path from the names passed so far, which must be those of a folder. -/
def step (tree : FileTree) (names : List String) (part : List Char) : Option (List String) :=
  match tree.node names with
  | .folder =>
    if part = ['.'] || part.isEmpty then some names
    else if part = ['.', '.'] then some names.dropLast
    else some (names ++ [String.ofList part])
  | _ => none

/-- The names to which a path leads, whatever stands there. -/
def resolve (tree : FileTree) (path : String) : Option (List String) :=
  match path.toList with
  | [] => none
  | '/' :: rest => (pathParts rest).foldlM tree.step []
  | relative => (pathParts relative).foldlM tree.step tree.home

/-- What can be read at a path. -/
def entry (tree : FileTree) (path : String) : Entry :=
  match tree.resolve path with
  | none => .missing
  | some names =>
    match tree.node names with
    | .missing => .missing
    | .folder => .unreadable
    | .file content => if tree.readable names then .file content else .unreadable

/-- Can a file be written at a path?  The folder of the file must be there. -/
def accepts (tree : FileTree) (path : String) : Bool :=
  match tree.resolve path with
  | none => false
  | some names =>
    match tree.node names with
    | .folder => false
    | _ => tree.writable names

/-- The surroundings of a run. -/
def surroundings (tree : FileTree) (streams : Streams) : Surroundings :=
  ⟨tree.entry, tree.accepts, streams⟩

/-- The tree with a file under the names. -/
def put (tree : FileTree) (names : List String) (content : ByteArray) : FileTree :=
  { tree with node := fun other => if other = names then .file content else tree.node other }

/-- The tree behind the writing of a file. -/
def store (tree : FileTree) (written : WrittenFile) : FileTree :=
  match tree.resolve written.path with
  | some names => tree.put names written.content.toUTF8
  | none => tree

/-- The tree that a run leaves behind. -/
def after (tree : FileTree) (outcome : Outcome) : FileTree := outcome.writes.foldl store tree

end FileTree

/-! ### Directories -/

/-- A file and the names that lead to it. -/
structure StoredFile where
  names : List String
  content : ByteArray

/-- The files below a directory. -/
structure Directory where
  files : List StoredFile

namespace Directory

/-- The name of the directory below the root. -/
def name : String := "work"

/-- The content of the file with these names. -/
def content? (directory : Directory) (names : List String) : Option ByteArray :=
  (directory.files.find? fun file => file.names = names).map StoredFile.content

/-- What stands below the directory.  The names in front of the last one of a file are folders. -/
def below (directory : Directory) (names : List String) : Node :=
  match directory.content? names with
  | some content => .file content
  | none =>
    if names.isEmpty || directory.files.any fun file => names.isPrefixOf file.names then .folder
    else .missing

/-- The tree with the directory below its root, where everything can be read and written. -/
def tree (directory : Directory) : FileTree where
  node
    | [] => .folder
    | first :: names => if first = name then directory.below names else .missing
  home := [name]
  readable := fun _ => true
  writable := fun _ => true

/-- The surroundings of a run in the directory. -/
def surroundings (directory : Directory) (standardInput : ByteArray) : Surroundings :=
  directory.tree.surroundings (.usual standardInput)

/-- The file of the directory that a run leaves behind, unless it held the same bytes before. -/
def change? (directory : Directory) (written : WrittenFile) : Option StoredFile :=
  match directory.tree.resolve written.path with
  | some (first :: names) =>
    let content := written.content.toUTF8
    if first = name && (directory.content? names).map ByteArray.data ≠ some content.data then
      some ⟨names, content⟩
    else none
  | _ => none

end Directory

end CommandLine
end QuantumCircuit
