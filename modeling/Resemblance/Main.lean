import Resemblance.CommandLine
import Std.Time

/-!
# The program

The program takes a copy of the files it may need as a `Tree`, lets `execute` do its work on the
copy, and then makes the same changes to the files.
-/

set_option autoImplicit false
namespace Resemblance
namespace Main

/-- The absolute path of a place. -/
def pathOf (place : Place) : String :=
  "/" ++ "/".intercalate place.reverse

/-- Copies what stands at a place, but nothing below a directory. -/
def copyPlace (t : Tree) (place : Place) : IO Tree := do
  let path := (← IO.currentDir) / pathOf place
  if ← path.isDir then return t.put place .directory
  else if ← path.pathExists then return t.put place (.file (← IO.FS.readBinFile path))
  else return t

/-- Copies what stands on the way of a path, and returns the place of its end. -/
def copyWay (t : Tree) (text : String) : IO (Tree × Place) := do
  let (place, parts) := t.route text
  parts.foldlM
    (fun (state : Tree × Place) part => do
      let (t, place) := state
      match part with
      | "" | "." => return (t, place)
      | ".." => return (t, place.tail)
      | name => return (← copyPlace t (name :: place), name :: place))
    (t, place)

/-- Copies everything below a place. -/
partial def copyBelow (t : Tree) (place : Place) : IO Tree := do
  if !t.isDirectoryAt place then return t
  let path := (← IO.currentDir) / pathOf place
  (← path.readDir).foldlM
    (fun t entry => do copyBelow (← copyPlace t (entry.fileName :: place)) (entry.fileName :: place))
    t

/-- A copy of the files that an invocation may need. -/
def copyFor (i : Invocation) : IO Tree := do
  let here := (← IO.currentDir).toString
  let bare : Tree := ⟨[], ∅⟩
  let (t, start) ← copyWay bare here
  let t := { t with start }
  let (t, root) ← copyWay t i.root
  let t ← copyBelow t root
  let t ← i.engine.toList.foldlM (fun t path => return (← copyWay t path).1) t
  i.logDirectory.toList.foldlM (fun t path => return (← copyWay t path).1) t

/-- Whether the same stands at a place. -/
def sameNode : Option Node → Option Node → Bool
  | some (.file a), some (.file b) => a == b
  | some .directory, some .directory => true
  | none, none => true
  | _, _ => false

/-- Makes the changes from one tree to another. -/
def applyChanges (before after : Tree) : IO Unit := do
  for (place, node) in after.nodes.toList.mergeSort (fun a b => a.1.length ≤ b.1.length) do
    if !sameNode (before.nodes[place]?) (some node) then
      match node with
      | .directory => IO.FS.createDirAll (pathOf place)
      | .file content => IO.FS.writeBinFile (pathOf place) content
  for (place, _) in before.nodes.toList do
    if !after.nodes.contains place then IO.FS.removeFile (pathOf place)

/-- The current minute. -/
def currentMoment : IO Moment := do
  let now ← Std.Time.PlainDateTime.now
  return {
    month := now.date.month.toNat
    day := now.date.day.toNat
    hour := now.time.hour.toNat
    minute := now.time.minute.toNat }

/-- The files that a request needs. -/
def copyForRequest : Option Request → IO Tree
  | some (.run i) => copyFor i
  | _ => return ⟨[], ∅⟩

end Main
end Resemblance

open Resemblance in
/-- Runs the command line. -/
def main (arguments : List String) : IO UInt32 := do
  let before ← Main.copyForRequest (Request.ofArguments? arguments)
  let (after, reply) := execute arguments before (← Main.currentMoment)
  Main.applyChanges before after
  (← IO.getStderr).putStr reply.errors
  (← IO.getStdout).putStr reply.output
  return reply.exit
