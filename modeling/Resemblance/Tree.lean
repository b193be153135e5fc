import Resemblance.FileError
import Resemblance.Path
import Std.Data.ExtTreeMap

/-!
# File trees

The files that a run reads and writes are a value: a map from places to files and directories.  A
*place* is the list of names on the way to it, innermost first, so that the directory of a place is
its tail and an entry of a directory is one name longer.

## What is here

* `Tree` — the files and directories, and the place from which relative paths start.
* `checkPath` — refuses texts that are no paths: they hold the character NUL or are too long.
* `Tree.resolve` and `Tree.locate` — the place of a text and of a path.  Every name on the way has
  to be there, and everything before a slash has to be a directory.
* `Tree.isDirectory`, `Tree.isFile`, `Tree.readText`, `Tree.directories` — reading.
* `Tree.write`, `Tree.remove`, `Tree.makeDirectories` — the tree after a change.

There are no links in a tree, and everything in it may be read and written.  Names are Unicode
texts.  A system may allow others, which could only be shown with replacements, but none of these
occurs in a tree.
-/

set_option autoImplicit false
namespace Resemblance

open Std

/-- The names on the way to a file or directory, innermost first. -/
abbrev Place := List String

/-- What stands at a place. -/
inductive Node where
  | file (content : ByteArray)
  | directory

/-- Files and directories. -/
structure Tree where
  /-- Where relative paths start. -/
  start : Place
  /-- What stands at each place but the outermost one, which is a directory. -/
  nodes : ExtTreeMap Place Node

/-! ## Limits -/

/-- The most bytes in a name. -/
def nameLimit : Nat := 255

/-- The most bytes in the text of a path. -/
def pathLimit : Nat := 4095

/-- Refuses texts that are no paths. -/
def checkPath (text : String) : Except FileError Unit :=
  if text.toList.contains '\x00' then .error .badName
  else if pathLimit < text.utf8ByteSize then .error .nameTooLong
  else .ok ()

namespace Tree

/-! ## Finding places -/

/-- What stands at a place. -/
def node? (t : Tree) : Place → Option Node
  | [] => some .directory
  | place => t.nodes[place]?

/-- Whether a directory stands at a place. -/
def isDirectoryAt (t : Tree) (place : Place) : Bool :=
  match t.node? place with
  | some .directory => true
  | _ => false

/-- The entry of a name at a place. -/
def enter (t : Tree) (place : Place) (name : String) : Except FileError Place :=
  if !t.isDirectoryAt place then .error .notDirectory
  else if nameLimit < name.utf8ByteSize then .error .nameTooLong
  else if (t.node? (name :: place)).isSome then .ok (name :: place)
  else .error .notFound

/-- One part of a path.  An empty part and a single dot stay at a place, and two dots go out. -/
def walk (t : Tree) (place : Place) (part : String) : Except FileError Place :=
  if t.isDirectoryAt place then
    match part with
    | "" | "." => .ok place
    | ".." => .ok place.tail
    | name => t.enter place name
  else .error .notDirectory

/-- The parts of a text and the place at which they begin. -/
def route (t : Tree) (text : String) : Place × List String :=
  let parts := (Path.parts text.toList).map String.ofList
  match text.toList with
  | '/' :: _ => ([], parts)
  | _ => (t.start, parts)

/-- The place of a text. -/
def resolve (t : Tree) (text : String) : Except FileError Place :=
  if text = "" then .error .notFound
  else
    let (place, parts) := t.route text
    parts.foldlM t.walk place

/-- The place at the end of a path. -/
def follow (t : Tree) : Path → Except FileError Place
  | .given text => t.resolve text
  | .child (.given "") name => t.enter t.start name
  | .child directory name => do t.enter (← t.follow directory) name

/-- The place of a path, whose text has to be one that a path can have. -/
def locate (t : Tree) (path : Path) : Except FileError Place := do
  checkPath path.text
  t.follow path

/-- The place of a directory that is going to have an entry of a name.  The empty path is the
start. -/
def locateDirectory (t : Tree) (directory : Path) (name : String) : Except FileError Place := do
  checkPath (directory / name).text
  let place ← match directory with
    | .given "" => .ok t.start
    | directory => t.follow directory
  if t.isDirectoryAt place then .ok place else .error .notDirectory

/-! ## Reading -/

/-- What stands at a path. -/
def at? (t : Tree) (path : Path) : Option Node :=
  match t.locate path with
  | .ok place => t.node? place
  | .error _ => none

/-- Whether a path leads to a directory. -/
def isDirectory (t : Tree) (path : Path) : Bool :=
  match t.at? path with
  | some .directory => true
  | _ => false

/-- Whether a path leads to a file. -/
def isFile (t : Tree) (path : Path) : Bool :=
  match t.at? path with
  | some (.file _) => true
  | _ => false

/-- The text in the file at a path. -/
def readText (t : Tree) (path : Path) : Except FileError String := do
  match t.node? (← t.locate path) with
  | some (.file content) =>
    match String.fromUTF8? content with
    | some text => .ok text
    | none => .error .notText
  | some .directory => .error .isDirectory
  | none => .error .notFound

/-- The names of all files and directories at a place, in order. -/
def entriesAt (t : Tree) (place : Place) : List String :=
  t.nodes.keys.filterMap fun
    | name :: outer => if outer = place then some name else none
    | [] => none

/-- The names of the directories in a directory, in order. -/
def directories (t : Tree) (path : Path) : Except FileError (List String) := do
  let place ← t.locate path
  if t.isDirectoryAt place then
    .ok ((t.entriesAt place).filter fun name => t.isDirectory (path / name))
  else .error .notDirectory

/-! ## Changing -/

/-- The tree with a file or directory at a place. -/
def put (t : Tree) (place : Place) (node : Node) : Tree :=
  { t with nodes := t.nodes.insert place node }

/-- The tree with a text in a file of a directory, be it new or not. -/
def write (t : Tree) (directory : Path) (name text : String) : Except FileError Tree := do
  let place ← t.locateDirectory directory name
  if t.isDirectoryAt (name :: place) then .error .isDirectory
  else .ok (t.put (name :: place) (.file text.toUTF8))

/-- The tree without the file at a path. -/
def remove (t : Tree) (path : Path) : Except FileError Tree := do
  let place ← t.locate path
  if t.isDirectoryAt place then .error .isDirectory
  else .ok { t with nodes := t.nodes.erase place }

/-- The tree with a new directory, the last of the parts that lead to it from a place.  The parts
are given innermost first.  One dot and two dots are directories that are there already. -/
def makeDirectory (t : Tree) (place : Place) : List String → Except FileError Tree
  | [] => .error .alreadyExists
  | name :: outer => do
    let place ← outer.reverse.foldlM t.walk place
    if !t.isDirectoryAt place then .error .notDirectory
    else if nameLimit < name.utf8ByteSize then .error .nameTooLong
    else if name = "." ∨ name = ".." ∨ (t.node? (name :: place)).isSome then .error .alreadyExists
    else .ok (t.put (name :: place) .directory)

/-- Whether parts, innermost first, lead from a place to a directory. -/
def leadsToDirectory (t : Tree) (place : Place) (parts : List String) : Bool :=
  match parts.reverse.foldlM t.walk place with
  | .ok place => t.isDirectoryAt place
  | .error _ => false

/-- The tree with a directory as `makeDirectory` makes it, unless it is there already. -/
def provideDirectory (t : Tree) (place : Place) (parts : List String) : Except FileError Tree :=
  match t.makeDirectory place parts with
  | .ok t => .ok t
  | .error e => if t.leadsToDirectory place parts then .ok t else .error e

/-- The tree after providing a directory.  If something on the way to it is missing, `prepare` makes
that first.  What was made stays when a later step fails. -/
def provideAfter (t : Tree) (place : Place) (parts : List String)
    (prepare : Tree → Tree × Except FileError Unit) : Tree × Except FileError Unit :=
  match t.provideDirectory place parts with
  | .ok t => (t, .ok ())
  | .error .notFound =>
    match prepare t with
    | (t, .error e) => (t, .error e)
    | (t, .ok ()) =>
      match t.provideDirectory place parts with
      | .ok t => (t, .ok ())
      | .error e => (t, .error e)
  | .error e => (t, .error e)

/-- The tree after making a directory and all that are missing on the way to it.  The parts are
given innermost first. -/
def makeRoute (t : Tree) (place : Place) : List String → Tree × Except FileError Unit
  | [] => (t, .ok ())
  | part :: outer => t.provideAfter place (part :: outer) fun t => t.makeRoute place outer

/-- The tree after making the directory of a text and all that are missing on the way to it.
Nothing has to be done for the empty text.  A text that ends in a dot asks for a directory that is
there: what is missing before that directory is made, but not the directory itself. -/
def makeDirectories (t : Tree) (text : String) : Tree × Except FileError Unit :=
  match checkPath text with
  | .error e => (t, .error e)
  | .ok () =>
    let (place, parts) := t.route text
    let inward := parts.reverse.filter (· != "")
    let steps := inward.filter (· != ".")
    if inward.head? = some "." then
      t.provideAfter place ("." :: steps) fun t => t.makeRoute place steps.tail
    else t.makeRoute place steps

end Tree
end Resemblance
