import Resemblance.Proofs.Region.Format
import Resemblance.Proofs.Run.Faults

/-!
# The file of matches

The file of matches holds a report of regions, and whoever reads it gets these regions back.

## What is here

* `Tree.readText_of_write` — a file that was written holds the text.
* `matches_read_back` — the file of matches.
-/

set_option autoImplicit false
namespace Resemblance

namespace Tree

/-- A file that was written holds the text. -/
theorem readText_of_write {t u : Tree} {directory : Path} {name text : String}
    (hname : name.utf8ByteSize ≤ nameLimit) (h : t.write directory name text = .ok u) :
    u.readText (directory / name) = .ok text := by
  rw [write_eq, map_eq_ok_iff] at h
  obtain ⟨q, hq, rfl⟩ := h
  obtain ⟨htext, place, hbase, hdirectory, hfile, rfl⟩ := target_eq_ok_iff.1 hq
  have hagree := agreeOutside_change (c := ⟨name :: place, some text⟩) hfile
  have hnode : (t.change ⟨name :: place, some text⟩).node? (name :: place) =
      some (.file text.toUTF8) := by
    rw [node?_change hfile, if_pos rfl]
    rfl
  refine readText_of_locate (locate_child_eq_ok_iff.2 ⟨htext, place, ?_, ?_, hname, ?_, rfl⟩) hnode
  · exact hagree.base hbase hdirectory
  · rw [hagree.directory, hdirectory]
  · rw [hnode]
    rfl

end Tree

/-- **Reports survive their file.**  Any regions at all are read back from their report as they
were, whatever their positions and versions are: names may be any texts, and all lists may be empty.
The file of matches holds the report of the regions it was written for. -/
theorem matches_read_back (regions : List Region) :
    Region.ofReport? (Region.report regions) = some regions ∧
      ∀ (t u : Tree) (directory : Path), writeMatches t directory regions = .ok u →
        u.readText (directory / matchesFile) = .ok (Region.report regions) :=
  ⟨Region.ofReport?_report regions, fun _ _ _ h =>
    Tree.readText_of_write (by decide) (forOutput_eq_ok_iff.1 h)⟩

end Resemblance
