import Mathlib.Data.List.Chain
import Resemblance.Proofs.Region.Grouping

/-!
# Runs cut into pieces, and joined again

The groups of a position are runs of one peer, cut into pieces.  Where a run was cut can be seen
from nothing but the pieces having one peer, so joining neighbours of one peer gives the runs back.

## What is here

* `joinNeighbours` — neighbours with equal keys become one run.  No two neighbours have equal keys
  after that (`isChain_joinNeighbours`).
* `cutRuns` — every run in pieces of one length, each under the key of the run.
* `joinNeighbours_cutRuns` — joining undoes cutting, whatever the length was.
* `length_le_of_mem_chunks`, `pairwise_chunks` — no piece is too long, and all but the last are as
  long as they may be.
* `byPeer_eq_joinNeighbours`, `ofLocations_eq_cutRuns` — the runs and the groups of locations.
-/

set_option autoImplicit false
namespace Resemblance

/-! ## Pieces of a list -/

section Chunks

variable {α β : Type} {n : Nat}

theorem chunks_map (f : α → β) (n : Nat) (l : List α) :
    chunks n (l.map f) = (chunks n l).map (List.map f) := by
  induction l using chunks.induct n with
  | case1 => rw [List.map_nil, chunks, chunks, List.map_nil]
  | case2 x xs ih =>
    rw [List.map_cons, chunks, chunks, List.map_cons, ← List.map_drop, ← List.map_take, ih,
      List.map_cons]

/-- The pieces of a list that begins with a whole piece. -/
theorem chunks_append_of_length {xs : List α} (h : xs.length = max n 1) (ys : List α) :
    chunks n (xs ++ ys) = xs :: chunks n ys := by
  obtain ⟨x, rest, rfl⟩ := List.exists_cons_of_length_pos (l := xs) (by omega)
  rw [List.length_cons] at h
  have hrest : rest.length = n - 1 := by omega
  rw [List.cons_append, chunks, List.take_left' hrest, List.drop_left' hrest]

/-- A list that is not too long is one piece. -/
theorem chunks_of_length_le {xs : List α} (hne : xs ≠ []) (h : xs.length ≤ max n 1) :
    chunks n xs = [xs] := by
  obtain ⟨x, rest, rfl⟩ := List.exists_cons_of_ne_nil hne
  rw [List.length_cons] at h
  have hrest : rest.length ≤ n - 1 := by omega
  rw [chunks, List.take_of_length_le hrest, List.drop_of_length_le hrest, chunks]

theorem chunks_ne_nil {l : List α} (h : l ≠ []) : chunks n l ≠ [] := by
  obtain ⟨x, xs, rfl⟩ := List.exists_cons_of_ne_nil h
  rw [chunks]
  exact List.cons_ne_nil _ _

theorem length_le_of_mem_chunks {l piece : List α} (h : piece ∈ chunks n l) :
    piece.length ≤ max n 1 := by
  induction l using chunks.induct n with
  | case1 =>
    rw [chunks] at h
    exact absurd h List.not_mem_nil
  | case2 x xs ih =>
    rw [chunks] at h
    rcases List.mem_cons.1 h with rfl | h
    · rw [List.length_cons, List.length_take]
      omega
    · exact ih h

/-- All pieces but the last are as long as they may be. -/
theorem pairwise_chunks (n : Nat) (l : List α) :
    (chunks n l).Pairwise fun piece _ => piece.length = max n 1 := by
  induction l using chunks.induct n with
  | case1 =>
    rw [chunks]
    exact List.Pairwise.nil
  | case2 x xs ih =>
    rw [chunks]
    refine List.pairwise_cons.2 ⟨fun piece hpiece => ?_, ih⟩
    -- there is a piece after this one, so the list did not end within it
    have hrest : xs.drop (n - 1) ≠ [] := by
      intro hnil
      rw [hnil, chunks] at hpiece
      exact absurd hpiece List.not_mem_nil
    have hlength := List.length_pos_of_ne_nil hrest
    rw [List.length_drop] at hlength
    rw [List.length_cons, List.length_take]
    omega

end Chunks

/-! ## Joining neighbours -/

section Join

variable {κ α β : Type} [DecidableEq κ]

/-- Neighbours with equal keys, put together. -/
def joinNeighbours : List (κ × List α) → List (κ × List α)
  | [] => []
  | (key, xs) :: rest =>
    match joinNeighbours rest with
    | [] => [(key, xs)]
    | (next, ys) :: more =>
      if key = next then (key, xs ++ ys) :: more else (key, xs) :: (next, ys) :: more

/-- Every run cut into pieces of length `n`, each under the key of the run. -/
def cutRuns (n : Nat) (runs : List (κ × List α)) : List (κ × List α) :=
  runs.flatMap fun run => (chunks n run.2).map fun piece => (run.1, piece)

/-- The first run of a joined list has the first key, and begins with what was first. -/
theorem exists_joinNeighbours_cons (key : κ) (xs : List α) (rest : List (κ × List α)) :
    ∃ ys more, joinNeighbours ((key, xs) :: rest) = (key, xs ++ ys) :: more := by
  rw [joinNeighbours]
  rcases joinNeighbours rest with - | ⟨⟨next, ys⟩, more⟩
  · exact ⟨[], [], by rw [List.append_nil]⟩
  · by_cases h : key = next
    · exact ⟨ys, more, if_pos h⟩
    · exact ⟨[], (next, ys) :: more, by rw [List.append_nil]; exact if_neg h⟩

/-- What is not joined to the next one stands for itself. -/
theorem joinNeighbours_cons_of_ne {key : κ} {rest : List (κ × List α)}
    (h : ∀ run ∈ (joinNeighbours rest).head?, key ≠ run.1) (xs : List α) :
    joinNeighbours ((key, xs) :: rest) = (key, xs) :: joinNeighbours rest := by
  rw [joinNeighbours]
  split
  · next hnil => rw [hnil]
  · next next ys more hjoin =>
    rw [hjoin] at h
    rw [if_neg (h _ rfl), hjoin]

/-- A run with the key of the next one is joined to it. -/
theorem joinNeighbours_cons_of_eq {key : κ} {ys : List α} {rest more : List (κ × List α)}
    (h : joinNeighbours rest = (key, ys) :: more) (xs : List α) :
    joinNeighbours ((key, xs) :: rest) = (key, xs ++ ys) :: more := by
  rw [joinNeighbours, h]
  exact if_pos rfl

/-- Neighbours with different keys stay apart. -/
theorem joinNeighbours_cons_cons_of_ne {key next : κ} (h : key ≠ next) (xs ys : List α)
    (rest : List (κ × List α)) :
    joinNeighbours ((key, xs) :: (next, ys) :: rest) =
      (key, xs) :: joinNeighbours ((next, ys) :: rest) := by
  refine joinNeighbours_cons_of_ne (fun run hrun => ?_) xs
  obtain ⟨zs, more, hjoin⟩ := exists_joinNeighbours_cons next ys rest
  rw [hjoin, List.head?_cons, Option.mem_some_iff] at hrun
  rw [← hrun]
  exact h

/-- Two neighbours may be joined beforehand. -/
theorem joinNeighbours_cons_cons_self (key : κ) (xs ys : List α) (rest : List (κ × List α)) :
    joinNeighbours ((key, xs) :: (key, ys) :: rest) =
      joinNeighbours ((key, xs ++ ys) :: rest) := by
  rw [joinNeighbours, joinNeighbours, joinNeighbours]
  rcases joinNeighbours rest with - | ⟨⟨next, zs⟩, more⟩
  · simp only [if_true]
  · by_cases h : key = next
    · simp only [h, if_true, List.append_assoc]
    · simp only [h, if_false, if_true]

/-- Pieces with one key may be joined beforehand. -/
theorem joinNeighbours_append (key : κ) (rest : List (κ × List α)) :
    ∀ {pieces : List (List α)}, pieces ≠ [] →
      joinNeighbours (pieces.map (fun piece => (key, piece)) ++ rest) =
        joinNeighbours ((key, pieces.flatten) :: rest)
  | [], h => absurd rfl h
  | [piece], _ => by rw [List.flatten_singleton]; rfl
  | piece :: next :: pieces, _ => by
    have ih := joinNeighbours_append key rest (List.cons_ne_nil next pieces)
    rw [List.flatten_cons, ← joinNeighbours_cons_cons_self, List.map_cons, List.cons_append]
    simp only [joinNeighbours, ih]

/-- No two neighbours of a joined list have equal keys. -/
theorem isChain_joinNeighbours (runs : List (κ × List α)) :
    (joinNeighbours runs).IsChain fun a b => a.1 ≠ b.1 := by
  induction runs with
  | nil => exact List.IsChain.nil
  | cons run rest ih =>
    obtain ⟨key, xs⟩ := run
    rw [joinNeighbours]
    rcases hrest : joinNeighbours rest with - | ⟨⟨next, ys⟩, more⟩
    · exact List.IsChain.singleton _
    · rw [hrest] at ih
      by_cases h : key = next
      · subst h
        simp only [if_true]
        cases more with
        | nil => exact List.IsChain.singleton _
        | cons after more =>
          rw [List.isChain_cons_cons] at ih
          exact List.isChain_cons_cons.2 ih
      · simp only [h, if_false]
        exact List.isChain_cons_cons.2 ⟨h, ih⟩

/-- Joining does not look at the items. -/
theorem joinNeighbours_map (f : α → β) (runs : List (κ × List α)) :
    joinNeighbours (runs.map fun run => (run.1, run.2.map f)) =
      (joinNeighbours runs).map fun run => (run.1, run.2.map f) := by
  induction runs with
  | nil => rfl
  | cons run rest ih =>
    obtain ⟨key, xs⟩ := run
    rw [List.map_cons, joinNeighbours, ih, joinNeighbours]
    rcases joinNeighbours rest with - | ⟨⟨next, ys⟩, more⟩
    · rfl
    · by_cases h : key = next
      · simp only [h, if_true, List.map_cons, List.map_append]
      · simp only [h, if_false, List.map_cons]

omit [DecidableEq κ] in
/-- Neither does cutting. -/
theorem cutRuns_map (n : Nat) (f : α → β) (runs : List (κ × List α)) :
    cutRuns n (runs.map fun run => (run.1, run.2.map f)) =
      (cutRuns n runs).map fun run => (run.1, run.2.map f) := by
  simp only [cutRuns, List.flatMap_map, List.map_flatMap, chunks_map, List.map_map,
    Function.comp_def]

theorem ne_nil_of_mem_joinNeighbours {runs : List (κ × List α)} (h : ∀ run ∈ runs, run.2 ≠ []) :
    ∀ run ∈ joinNeighbours runs, run.2 ≠ [] := by
  induction runs with
  | nil => exact fun run hrun => absurd hrun List.not_mem_nil
  | cons first rest ih =>
    obtain ⟨key, xs⟩ := first
    obtain ⟨hxs, hrest⟩ := List.forall_mem_cons.1 h
    have ih := ih hrest
    rw [joinNeighbours]
    rcases hjoin : joinNeighbours rest with - | ⟨⟨next, ys⟩, more⟩
    · exact List.forall_mem_cons.2 ⟨hxs, fun run hrun => absurd hrun List.not_mem_nil⟩
    · rw [hjoin] at ih
      by_cases heq : key = next
      · simp only [heq, if_true]
        exact List.forall_mem_cons.2
          ⟨List.append_ne_nil_of_left_ne_nil hxs ys, (List.forall_mem_cons.1 ih).2⟩
      · simp only [heq, if_false]
        exact List.forall_mem_cons.2 ⟨hxs, ih⟩

/-- **Joining undoes cutting**, whatever the length of the pieces. -/
theorem joinNeighbours_cutRuns (n : Nat) {runs : List (κ × List α)}
    (hchain : runs.IsChain fun a b => a.1 ≠ b.1) (hne : ∀ run ∈ runs, run.2 ≠ []) :
    joinNeighbours (cutRuns n runs) = runs := by
  induction runs with
  | nil => rfl
  | cons run rest ih =>
    obtain ⟨hrun, hrest⟩ := List.forall_mem_cons.1 hne
    have ih : joinNeighbours (cutRuns n rest) = rest := ih hchain.tail hrest
    calc joinNeighbours (cutRuns n (run :: rest))
        = joinNeighbours ((chunks n run.2).map (fun piece => (run.1, piece)) ++ cutRuns n rest) := by
          rw [cutRuns, List.flatMap_cons, ← cutRuns]
      _ = joinNeighbours ((run.1, run.2) :: cutRuns n rest) := by
          rw [joinNeighbours_append _ _ (chunks_ne_nil hrun), flatten_chunks]
      _ = run :: rest := by
          rw [joinNeighbours_cons_of_ne, ih]
          intro next hnext
          rw [ih] at hnext
          exact (List.isChain_cons.1 hchain).1 next hnext

end Join

/-! ## The runs and the groups of locations -/

/-- The runs of locations are what comes of joining them one by one. -/
theorem byPeer_eq_joinNeighbours (ls : List Location) :
    Location.byPeer ls = joinNeighbours (ls.map fun l => (l.peer, [l.position])) := by
  induction ls with
  | nil => rfl
  | cons l ls ih =>
    rw [Location.byPeer, List.map_cons, joinNeighbours, ← ih]
    rcases Location.byPeer ls with - | ⟨⟨peer, positions⟩, rest⟩
    · rfl
    · by_cases h : l.peer = peer
      · simp only [h, if_true, List.singleton_append]
      · simp only [h, if_false]

/-- Neighbouring runs are of different peers. -/
theorem isChain_byPeer (ls : List Location) :
    (Location.byPeer ls).IsChain fun a b => a.1 ≠ b.1 := by
  rw [byPeer_eq_joinNeighbours]
  exact isChain_joinNeighbours _

/-- No run is empty. -/
theorem ne_nil_of_mem_byPeer {ls : List Location} {run : Peer × List Position}
    (h : run ∈ Location.byPeer ls) : run.2 ≠ [] := by
  rw [byPeer_eq_joinNeighbours] at h
  refine ne_nil_of_mem_joinNeighbours (fun single hsingle => ?_) run h
  obtain ⟨l, -, rfl⟩ := List.mem_map.1 hsingle
  exact List.cons_ne_nil _ _

/-- A run of positions as a group of windows. -/
def Group.ofRun (hashSize : Nat) (run : Peer × List Position) : Group :=
  ⟨run.1, run.2.map (Window.ofPosition hashSize)⟩

/-- The groups of locations are their runs, cut. -/
theorem ofLocations_eq_cutRuns (hashSize cap : Nat) (ls : List Location) :
    Group.ofLocations hashSize cap ls =
      (cutRuns cap (Location.byPeer ls)).map (Group.ofRun hashSize) := by
  simp only [Group.ofLocations, cutRuns, List.map_flatMap, List.map_map]
  rfl

end Resemblance
