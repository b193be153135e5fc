/-!
# Paths

A path is a text given by the user, or a name inside the directory of another path.  The texts of
paths appear in messages exactly as they were given; nothing in them is simplified.

## What is here

* `Path` — a path; `p / name` is the entry of that name in `p`.
* `Path.text` — its text.
* `Path.parts` — the parts of a text between its slashes.
-/

set_option autoImplicit false
namespace Resemblance

/-- A path to a file or directory. -/
inductive Path where
  | given (text : String)
  | child (directory : Path) (name : String)
  deriving DecidableEq

namespace Path

instance : HDiv Path String Path := ⟨child⟩

/-- A name after a text, with one slash between them unless the text is empty or ends with one. -/
def join (text name : String) : String :=
  match text.toList.getLast? with
  | none => name
  | some '/' => text ++ name
  | some _ => text ++ "/" ++ name

/-- The text of a path. -/
def text : Path → String
  | given s => s
  | child directory name => join directory.text name

/-- The parts of a text between its slashes, in order.  A text without slashes is one part. -/
def parts : List Char → List (List Char)
  | [] => [[]]
  | c :: cs =>
    if c = '/' then [] :: parts cs
    else
      match parts cs with
      | [] => [[c]]
      | part :: rest => (c :: part) :: rest

end Path
end Resemblance
