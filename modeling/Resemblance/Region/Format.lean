import Resemblance.Json.Fields
import Resemblance.Json.Printer
import Resemblance.Json.Reader
import Resemblance.Region.Basic

/-!
# Regions as JSON

A report of matches is an array of records.  Each has the keys `start`, `end` and `type`, and a
match has its groups under `others`.

## What is here

* `Region.toJson` and `Region.report` — writing.
* `Region.ofJson?` and `Region.ofReport?` — reading.  A record is an object, and all its members are
  read in full even if their names mean nothing.  The type is a name or its number in the order
  `match`, `common`, `provided`.
-/

set_option autoImplicit false
namespace Resemblance

open Json

/-- A number as a JSON value. -/
def Json.Value.ofNat (n : Nat) : Value := .number (Number.ofNat n)

/-- A string as a JSON value. -/
def Json.Value.ofString (s : String) : Value := .string (Text.ofString s)

/-- An object with the given members. -/
def Json.Value.ofMembers (members : List (String × Value)) : Value :=
  .object (members.map fun member => (Text.ofString member.1, member.2))

/-! ## Writing -/

/-- A window as JSON. -/
def Window.toJson (w : Window) : Value :=
  .ofMembers [("start", .ofNat w.first.toNat), ("end", .ofNat w.last.toNat)]

/-- A group as JSON. -/
def Group.toJson (g : Group) : Value :=
  .ofMembers [
    ("username", .ofString g.peer.student),
    ("version", .ofNat g.peer.version.toNat),
    ("source_gradeable", .ofString g.peer.gradeable),
    ("matching_positions", .array (g.windows.map Window.toJson))]

/-- The members that tell the kind of a region. -/
def Kind.members : Kind → List (String × Value)
  | .matched others =>
    [("type", .ofString "match"), ("others", .array (others.map Group.toJson))]
  | .common => [("type", .ofString "common")]
  | .provided => [("type", .ofString "provided")]

/-- A region as JSON. -/
def Region.toJson (r : Region) : Value :=
  .ofMembers ([("start", .ofNat r.first.toNat), ("end", .ofNat r.last.toNat)] ++ r.kind.members)

/-- The text of a report. -/
def Region.report (regions : List Region) : String :=
  Json.pretty (.array (regions.map Region.toJson))

/-! ## Reading -/

/-- A position from JSON. -/
def Json.Value.position? (v : Value) : Option Position :=
  (v.nat? UInt64.size).map UInt64.ofNat

/-- A window from JSON. -/
def Window.ofJson? (v : Value) : Option Window := do
  match ← v.fields? ["start", "end"] with
  | [some first, some last] =>
    some ⟨← first.position?, ← last.position?⟩
  | _ => none

/-- A group from JSON. -/
def Group.ofJson? (v : Value) : Option Group := do
  match ← v.fields? ["username", "version", "source_gradeable", "matching_positions"] with
  | [some student, some version, some gradeable, some windows] =>
    let peer : Peer :=
      ⟨← student.text?, UInt32.ofNat (← version.nat? UInt32.size), ← gradeable.text?⟩
    some ⟨peer, ← windows.list? Window.ofJson?⟩
  | _ => none

/-- The type of a record, by name or by number. -/
def Tag.ofJson? : Value → Option Tag
  | .string t =>
    match t.toString? with
    | some "match" => some .matched
    | some "common" => some .common
    | some "provided" => some .provided
    | _ => none
  | .number n =>
    match n.toNat? with
    | some 0 => some .matched
    | some 1 => some .common
    | some 2 => some .provided
    | _ => none
  | _ => none

/-- How deep arrays and objects may be nested in a report, the report and its records included. -/
def reportDepth : Nat := 127

/-- The kind of a region from the members of its record. -/
def Kind.ofMembers? (members : List (String × Value)) : Option Kind := do
  match ← Tag.ofJson? (← ← Value.unique? members "type") with
  | .common => some .common
  | .provided => some .provided
  | .matched =>
    let others ← ← Value.unique? members "others"
    some (.matched (← others.list? Group.ofJson?))

/-- A region from JSON. -/
def Region.ofJson? : Value → Option Region
  | .object members => do
    let members ← Value.keyed? members
    let first ← ← Value.unique? members "start"
    let last ← ← Value.unique? members "end"
    let rest := members.filter fun member => member.1 != "start" && member.1 != "end"
    if rest.all fun member => member.2.isPlain (reportDepth - 2) then
      some ⟨← first.position?, ← last.position?, ← Kind.ofMembers? rest⟩
    else none
  | _ => none

/-- The regions of the text of a report. -/
def Region.ofReport? (text : String) : Option (List Region) := do
  (← Json.parse? text).list? Region.ofJson?

end Resemblance
