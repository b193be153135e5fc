import Resemblance.Bearers
import Resemblance.Submission
import Std.Data.ExtTreeMap

/-!
# Indices

An index answers, for the submissions of one gradeable, which students have a given fingerprint and
where.

## What is here

* `Sighting` — a fingerprint seen in one of a student's versions.
* `Index` — the bearers of every fingerprint.
* `Index.insert`, `Index.ofSightings` and `Index.ofSubmissions` — building an index.  A sighting
  adds one occurrence to its own fingerprint and student and leaves all others alone
  (`bearers_insert`, `Bearers.occurrences_add`).
* `Index.bearers?`, `Index.studentCount`, `Index.locations` — looking a fingerprint up.
* `ProvidedCode` — the fingerprints of code that students were given; where they stand does not
  matter.
-/

set_option autoImplicit false
namespace Resemblance

open Std

/-! ## Sightings -/

/-- A fingerprint seen in a submission. -/
structure Sighting where
  fingerprint : Fingerprint
  student : String
  occurrence : Occurrence
  deriving DecidableEq

/-- The fingerprints of a submission as sightings, in order. -/
def Submission.sightings (s : Submission) : List Sighting :=
  s.positions.map fun entry => ⟨entry.1, s.student, ⟨s.version, entry.2⟩⟩

/-! ## Indices -/

/-- Where each fingerprint occurs in the submissions of one gradeable. -/
structure Index where
  /-- The name of the gradeable. -/
  label : String
  entries : ExtTreeMap Fingerprint Bearers

namespace Index

/-- An index without fingerprints. -/
def empty (label : String) : Index := ⟨label, ∅⟩

/-- Adds a sighting after all others. -/
def insert (i : Index) (s : Sighting) : Index :=
  { i with
    entries := i.entries.alter s.fingerprint fun bearers? =>
      some ((bearers?.getD ∅).add s.student s.occurrence) }

/-- The index of a list of sightings. -/
def ofSightings (label : String) (sightings : List Sighting) : Index :=
  sightings.foldl insert (empty label)

/-- The index of a list of submissions. -/
def ofSubmissions (label : String) (submissions : List Submission) : Index :=
  ofSightings label (submissions.flatMap Submission.sightings)

/-! ## Looking up -/

/-- The students who have a fingerprint, with its occurrences in their submissions. -/
def bearers? (i : Index) (f : Fingerprint) : Option Bearers :=
  i.entries[f]?

/-- The students who have a fingerprint, none if the index does not know it. -/
def bearers (i : Index) (f : Fingerprint) : Bearers :=
  (i.bearers? f).getD ∅

/-- How many students have a fingerprint. -/
def studentCount (i : Index) (f : Fingerprint) : Nat :=
  (i.bearers f).size

/-- All occurrences of a fingerprint as locations, by student and then in order of insertion. -/
def locations (i : Index) (f : Fingerprint) : List Location :=
  (i.bearers f).locations i.label

/-- The number of different fingerprints. -/
def fingerprintCount (i : Index) : Nat :=
  i.entries.size

/-- The number of occurrences of all fingerprints. -/
def occurrenceCount (i : Index) : Nat :=
  (i.entries.values.flatMap fun b => b.toList.flatMap fun entry => entry.2.toList).length

/-- Whether the index has no fingerprint. -/
def isEmpty (i : Index) : Bool :=
  i.entries.isEmpty

/-! ## Insertion seen through the look-up -/

@[simp] theorem label_insert (i : Index) (s : Sighting) : (i.insert s).label = i.label := rfl

@[simp] theorem bearers_empty (label : String) (f : Fingerprint) : (empty label).bearers f = ∅ := by
  simp [bearers, bearers?, empty]

theorem bearers_insert (i : Index) (s : Sighting) (f : Fingerprint) :
    (i.insert s).bearers f =
      if s.fingerprint = f then (i.bearers f).add s.student s.occurrence else i.bearers f := by
  by_cases h : s.fingerprint = f <;>
    simp [bearers, bearers?, insert, ExtTreeMap.getElem?_alter, h]

end Index

/-! ## Provided code -/

/-- The fingerprints of provided code. -/
abbrev ProvidedCode := ExtTreeSet Fingerprint

/-- The provided code with these fingerprints. -/
def ProvidedCode.ofFingerprints (fs : List Fingerprint) : ProvidedCode :=
  ExtTreeSet.ofList fs compare

end Resemblance
