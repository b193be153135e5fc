import Resemblance.Fault
import Resemblance.Peer

/-!
# Notices

What a run reports in its log while it goes on.  Reports that are neither warnings nor errors are
left out.

## What is here

* `Notice` — the events worth a warning or an error.
* `Logged α` — the notices of a step together with its result.  Steps are chained by `>>=`: the
  notices add up, and the first fault ends the chain.
* `Logged.each` — one step for each item of a list.
-/

set_option autoImplicit false
namespace Resemblance

/-- How serious a notice is. -/
inductive Severity where
  | warning
  | error
  deriving DecidableEq

/-- An event that is logged. -/
inductive Notice where
  /-- A group of windows of `peer` was full at a position, and another one was begun. -/
  | groupFull (student : String) (version : Version) (position : Position) (cap : Nat) (peer : Peer)
  /-- A version directory has no fingerprint file. -/
  | noFingerprints (path : String)
  /-- The outputs of a submission could not be written. -/
  | outputFailed (student : String) (version : Version) (fault : Fault)
  /-- The overall ranking could not be written. -/
  | rankingFailed (fault : Fault)
  /-- So many files could not be written in all. -/
  | failures (count : Nat)

namespace Notice

/-- How serious the notice is. -/
def severity : Notice → Severity
  | .groupFull .. | .noFingerprints .. => .warning
  | .outputFailed .. | .rankingFailed .. | .failures .. => .error

/-- A student and a version. -/
def owner (student : String) (version : Version) : String :=
  student ++ "/" ++ toString version.toNat

/-- The text of the notice. -/
def message : Notice → String
  | .groupFull student version position cap peer =>
    owner student version ++ ": position " ++ toString position.toNat ++
      " reached max_matching_positions (" ++ toString cap ++ ") with " ++
      owner peer.student peer.version ++ ", flushing group"
  | .noFingerprints path => "Skipping " ++ Text.quoted path ++ ": no hashes.txt"
  | .outputFailed student version fault => owner student version ++ ": " ++ fault.message
  | .rankingFailed fault => fault.message
  | .failures count => toString count ++ " output failures"

end Notice

/-! ## Steps that log -/

/-- The notices of a step and how it ended. -/
structure Logged (α : Type) where
  notices : List Notice
  result : Except Fault α

namespace Logged

variable {α β : Type}

/-- A step that ends well and logs nothing. -/
def done (a : α) : Logged α := ⟨[], .ok a⟩

/-- A step that fails and logs nothing. -/
def fail (fault : Fault) : Logged α := ⟨[], .error fault⟩

/-- A step that logs nothing. -/
def ofExcept (result : Except Fault α) : Logged α := ⟨[], result⟩

/-- One step after another.  The second is not taken when the first fails. -/
def andThen (x : Logged α) (f : α → Logged β) : Logged β :=
  match x.result with
  | .ok a => ⟨x.notices ++ (f a).notices, (f a).result⟩
  | .error fault => ⟨x.notices, .error fault⟩

instance : Monad Logged where
  pure := done
  bind := andThen

/-- One step for each item of a list, in order, up to the first fault. -/
def each (f : α → Logged β) : List α → Logged (List β)
  | [] => done []
  | a :: rest => (f a).andThen fun b => (each f rest).andThen fun bs => done (b :: bs)

end Logged
end Resemblance
