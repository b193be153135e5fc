import Resemblance.Region.OfLedger

/-!
# Grouping loses and invents no location

The groups of a suspicious position, read in order, are its locations: first as runs of one peer
(`flatMap_byPeer`), then with the runs cut into pieces (`flatten_chunks`), and at last with a
window in place of each position (`flatMap_ofLocations`).  So the windows of a peer are those of its
locations (`exists_window_iff`), and as no group is without windows, the groups are of exactly the
peers of the locations (`exists_group_iff`).
-/

set_option autoImplicit false
namespace Resemblance

/-! ## Runs and pieces -/

/-- The runs of a list of locations, read in order, are the list. -/
theorem flatMap_byPeer (ls : List Location) :
    ((Location.byPeer ls).flatMap fun run => run.2.map (Location.mk run.1)) = ls := by
  induction ls with
  | nil => rfl
  | cons l ls ih =>
    rw [Location.byPeer]
    split
    · rename_i hruns
      rw [hruns] at ih
      rw [← ih]
      rfl
    · rename_i peer positions rest hruns
      rw [hruns, List.flatMap_cons] at ih
      split
      · rename_i hpeer
        rw [List.flatMap_cons, List.map_cons, List.cons_append, ih, ← hpeer]
      · rw [List.flatMap_cons, List.flatMap_cons, ih]
        rfl

/-- The pieces of a list, read in order, are the list. -/
theorem flatten_chunks {α : Type} (n : Nat) (l : List α) : (chunks n l).flatten = l := by
  induction l using chunks.induct n with
  | case1 => rw [chunks]; rfl
  | case2 x xs ih => rw [chunks, List.flatten_cons, ih, List.cons_append, List.take_append_drop]

/-- No piece of a list is empty. -/
theorem ne_nil_of_mem_chunks {α : Type} {n : Nat} {l piece : List α} (h : piece ∈ chunks n l) :
    piece ≠ [] := by
  induction l using chunks.induct n with
  | case1 =>
    rw [chunks] at h
    exact absurd h List.not_mem_nil
  | case2 x xs ih =>
    rw [chunks] at h
    rcases List.mem_cons.1 h with rfl | h
    · exact List.cons_ne_nil _ _
    · exact ih h

/-! ## Groups -/

/-- The groups of one run, read in order, are its windows. -/
theorem flatMap_pieces (hashSize cap : Nat) (run : Peer × List Position) :
    (((chunks cap run.2).map fun piece =>
        (⟨run.1, piece.map (Window.ofPosition hashSize)⟩ : Group)).flatMap fun g =>
      g.windows.map fun w => (g.peer, w)) =
    run.2.map fun p => (run.1, Window.ofPosition hashSize p) := by
  calc _ = (chunks cap run.2).flatMap fun piece =>
        piece.map fun p => (run.1, Window.ofPosition hashSize p) := by
        simp only [List.flatMap_map, List.map_map, Function.comp_def]
    _ = (chunks cap run.2).flatten.map fun p => (run.1, Window.ofPosition hashSize p) := by
        rw [List.map_flatten, List.flatMap_def]
    _ = _ := by rw [flatten_chunks]

/-- **The groups of a list of locations, read in order, are its windows.** -/
theorem flatMap_ofLocations (hashSize cap : Nat) (ls : List Location) :
    ((Group.ofLocations hashSize cap ls).flatMap fun g => g.windows.map fun w => (g.peer, w)) =
      ls.map fun l => (l.peer, Window.ofPosition hashSize l.position) := by
  calc _ = (Location.byPeer ls).flatMap fun run =>
        run.2.map fun p => (run.1, Window.ofPosition hashSize p) := by
        rw [Group.ofLocations, List.flatMap_assoc]
        exact congrArg (fun f => (Location.byPeer ls).flatMap f)
          (funext fun run => flatMap_pieces hashSize cap run)
    _ = ((Location.byPeer ls).flatMap fun run => run.2.map (Location.mk run.1)).map fun l =>
        (l.peer, Window.ofPosition hashSize l.position) := by
        simp only [List.map_flatMap, List.map_map, Function.comp_def]
    _ = _ := by rw [flatMap_byPeer]

/-- A window is in a group of a peer exactly when it stands for a location of the peer. -/
theorem exists_window_iff (hashSize cap : Nat) (ls : List Location) (peer : Peer) (w : Window) :
    (∃ g ∈ Group.ofLocations hashSize cap ls, g.peer = peer ∧ w ∈ g.windows) ↔
      ∃ x ∈ ls, x.peer = peer ∧ w = Window.ofPosition hashSize x.position := by
  have hmem : (peer, w) ∈
      ((Group.ofLocations hashSize cap ls).flatMap fun g => g.windows.map fun w => (g.peer, w)) ↔
        (peer, w) ∈ ls.map fun x => (x.peer, Window.ofPosition hashSize x.position) := by
    rw [flatMap_ofLocations]
  simp only [List.mem_flatMap, List.mem_map, Prod.mk.injEq] at hmem
  constructor
  · rintro ⟨g, hg, hpeer, hw⟩
    obtain ⟨x, hx, hx', hwindow⟩ := hmem.1 ⟨g, hg, w, hw, hpeer, rfl⟩
    exact ⟨x, hx, hx', hwindow.symm⟩
  · rintro ⟨x, hx, hpeer, hwindow⟩
    obtain ⟨g, hg, v, hv, hpeer, rfl⟩ := hmem.2 ⟨x, hx, hpeer, hwindow.symm⟩
    exact ⟨g, hg, hpeer, hv⟩

/-- Every window of a group stands for a location of its peer. -/
theorem exists_location_of_mem_windows {hashSize cap : Nat} {ls : List Location} {g : Group}
    (hg : g ∈ Group.ofLocations hashSize cap ls) {w : Window} (hw : w ∈ g.windows) :
    ∃ l ∈ ls, l.peer = g.peer ∧ w = Window.ofPosition hashSize l.position :=
  (exists_window_iff hashSize cap ls g.peer w).1 ⟨g, hg, rfl, hw⟩

/-- No group is without windows. -/
theorem windows_ne_nil_of_mem_ofLocations {hashSize cap : Nat} {ls : List Location} {g : Group}
    (hg : g ∈ Group.ofLocations hashSize cap ls) : g.windows ≠ [] := by
  obtain ⟨run, -, hg⟩ := List.mem_flatMap.1 hg
  obtain ⟨piece, hpiece, rfl⟩ := List.mem_map.1 hg
  rw [ne_eq, List.map_eq_nil_iff]
  exact ne_nil_of_mem_chunks hpiece

/-- A peer has a group exactly when it has a location. -/
theorem exists_group_iff (hashSize cap : Nat) (ls : List Location) (peer : Peer) :
    (∃ g ∈ Group.ofLocations hashSize cap ls, g.peer = peer) ↔ ∃ x ∈ ls, x.peer = peer := by
  constructor
  · rintro ⟨g, hg, rfl⟩
    obtain ⟨w, hw⟩ := List.exists_mem_of_ne_nil _ (windows_ne_nil_of_mem_ofLocations hg)
    obtain ⟨x, hx, hpeer, -⟩ := exists_location_of_mem_windows hg hw
    exact ⟨x, hx, hpeer⟩
  · rintro ⟨x, hx, hpeer⟩
    obtain ⟨g, hg, hpeer, -⟩ :=
      (exists_window_iff hashSize cap ls peer _).2 ⟨x, hx, hpeer, rfl⟩
    exact ⟨g, hg, hpeer⟩

end Resemblance
