import Resemblance.Ranking.Report

/-!
# The lines of a ranking

A ranking is written with a line feed after every standing, and whoever reads it splits it there.
Of the columns of a standing, numbers have no line feed, but names are written as they are, and the
name of a directory may hold one.  Each of these breaks the line of its standing in two.

## What is here

* `Text.lines` — the lines of a text, and `Text.lineFeeds`, the number of its line feeds.
* `Report.lines_ofLines_eq_iff` — texts that are written as lines are read back exactly when none of
  them has a line feed.
* `Report.lineFeeds_overallLine`, `Report.lineFeeds_peerLine` — the line of a standing has the line
  feeds of the names in it and no others.
* `Report.InLines` — what the lines of a ranking have to do with its standings.
-/

set_option autoImplicit false
namespace Resemblance

/-! ## The lines of a text -/

namespace Text

/-- The number of line feeds in a text. -/
def lineFeeds (text : String) : Nat :=
  text.toList.count '\n'

/-- The parts of a text between its line feeds, in order.  A text without line feeds is one part. -/
def parts (text : String) : List String :=
  (text.toList.splitOn '\n').map String.ofList

/-- The lines of a text: its parts, but for an empty one after the last line feed. -/
def lines (text : String) : List String :=
  if (parts text).getLast? = some "" then (parts text).dropLast else parts text

@[simp] theorem lineFeeds_append (a b : String) :
    lineFeeds (a ++ b) = lineFeeds a + lineFeeds b := by
  rw [lineFeeds, String.toList_append, List.count_append, ← lineFeeds, ← lineFeeds]

theorem lineFeeds_eq_zero_iff {text : String} : lineFeeds text = 0 ↔ '\n' ∉ text.toList :=
  List.count_eq_zero

theorem lineFeeds_ofList_eq_zero {cs : List Char} (h : '\n' ∉ cs) :
    lineFeeds (String.ofList cs) = 0 := by
  rwa [lineFeeds_eq_zero_iff, String.toList_ofList]

theorem lineFeeds_join_cons (text : String) (texts : List String) :
    lineFeeds (String.join (text :: texts)) = lineFeeds text + lineFeeds (String.join texts) := by
  rw [lineFeeds, String.toList_join, List.flatMap_cons, List.count_append, ← String.toList_join,
    ← lineFeeds, ← lineFeeds]

theorem lineFeeds_join_append (as bs : List String) :
    lineFeeds (String.join (as ++ bs)) =
      lineFeeds (String.join as) + lineFeeds (String.join bs) := by
  rw [lineFeeds, String.toList_join, List.flatMap_append, List.count_append, ← String.toList_join,
    ← String.toList_join, ← lineFeeds, ← lineFeeds]

theorem lineFeeds_join_eq_zero_iff {texts : List String} :
    lineFeeds (String.join texts) = 0 ↔ ∀ text ∈ texts, '\n' ∉ text.toList := by
  rw [lineFeeds_eq_zero_iff, String.toList_join]
  simp only [List.mem_flatMap, not_exists, not_and]

/-- A line feed between two texts parts them. -/
theorem parts_append (a b : String) : parts (a ++ "\n" ++ b) = parts a ++ parts b := by
  have hsplit : (a.toList ++ '\n' :: b.toList).splitOn '\n' =
      a.toList.splitOn '\n' ++ b.toList.splitOn '\n' :=
    List.splitOnP_append_cons a.toList b.toList rfl
  rw [parts, parts, parts, ← List.map_append, ← hsplit, String.toList_append,
    String.toList_append, List.append_assoc]
  rfl

theorem parts_of_lineFeeds_eq_zero {text : String} (h : lineFeeds text = 0) :
    parts text = [text] := by
  rw [parts, List.splitOn_eq_singleton (lineFeeds_eq_zero_iff.1 h), List.map_singleton,
    String.ofList_toList]

/-- Every line feed makes one part more. -/
theorem length_parts (text : String) : (parts text).length = lineFeeds text + 1 := by
  rw [parts, List.length_map, lineFeeds]
  induction text.toList with
  | nil => rfl
  | cons c cs ih =>
    rw [List.splitOn, List.splitOnP_cons_eq_if_modifyHead, ← List.splitOn, List.count_cons]
    split
    · rw [List.length_cons, ih]
    · rw [List.length_modifyHead, ih, Nat.add_zero]

end Text

/-! ## Texts written as lines -/

namespace Report

open Text

theorem ofLines_cons (line : String) (rest : List String) :
    ofLines (line :: rest) = line ++ "\n" ++ ofLines rest := by
  apply String.toList_injective
  simp [ofLines, String.toList_join]

theorem parts_ofLines (texts : List String) :
    parts (ofLines texts) = texts.flatMap parts ++ [""] := by
  induction texts with
  | nil => rfl
  | cons text texts ih => rw [ofLines_cons, parts_append, ih, List.flatMap_cons, List.append_assoc]

/-- Every text that is written as a line has its parts for lines. -/
theorem lines_ofLines (texts : List String) : lines (ofLines texts) = texts.flatMap parts := by
  rw [lines, parts_ofLines, if_pos List.getLast?_concat, List.dropLast_concat]

/-- There is a line for every text, and one more for every line feed in them. -/
theorem length_lines_ofLines (texts : List String) :
    (lines (ofLines texts)).length = texts.length + lineFeeds (String.join texts) := by
  rw [lines_ofLines]
  induction texts with
  | nil => rfl
  | cons text texts ih =>
    rw [List.flatMap_cons, List.length_append, length_parts, ih, List.length_cons,
      lineFeeds_join_cons]
    omega

/-- **Texts that are written as lines are read back exactly when none of them has a line feed.** -/
theorem lines_ofLines_eq_iff {texts : List String} :
    lines (ofLines texts) = texts ↔ ∀ text ∈ texts, lineFeeds text = 0 := by
  constructor
  · intro h
    have hlength := length_lines_ofLines texts
    rw [h] at hlength
    -- with as many lines as texts there is none left for a line feed
    have hnone : lineFeeds (String.join texts) = 0 := by omega
    exact fun text htext =>
      lineFeeds_eq_zero_iff.2 (lineFeeds_join_eq_zero_iff.1 hnone text htext)
  · intro h
    rw [lines_ofLines]
    induction texts with
    | nil => rfl
    | cons text texts ih =>
      obtain ⟨htext, hrest⟩ := List.forall_mem_cons.1 h
      rw [List.flatMap_cons, parts_of_lineFeeds_eq_zero htext, ih hrest, List.singleton_append]

example : lines (ofLines ["a", "", "b\nc"]) = ["a", "", "b", "c"] := by decide +kernel

/-! ## The columns of a standing -/

theorem lineFeed_not_mem_toDigits (n : Nat) : '\n' ∉ Nat.toDigits 10 n := fun h =>
  absurd (Nat.isDigit_of_mem_toDigits (by decide) (by decide) h) (by decide)

theorem lineFeed_not_mem_replicate {c : Char} (hc : '\n' ≠ c) (n : Nat) :
    '\n' ∉ List.replicate n c :=
  fun h => hc (List.eq_of_mem_replicate h)

theorem lineFeeds_toString (n : Nat) : lineFeeds (toString n) = 0 := by
  rw [Nat.toString_eq_ofList_toDigits]
  exact lineFeeds_ofList_eq_zero (lineFeed_not_mem_toDigits n)

theorem lineFeeds_signText (negative : Bool) : lineFeeds (Decimal.signText negative) = 0 := by
  cases negative <;> rfl

theorem lineFeeds_point (n places : Nat) : lineFeeds (Decimal.point n places) = 0 := by
  have hdigits : ∀ zeros, '\n' ∉ List.replicate zeros '0' ++ Nat.toDigits 10 n := fun zeros h =>
    (List.mem_append.1 h).elim (lineFeed_not_mem_replicate (by decide) zeros)
      (lineFeed_not_mem_toDigits n)
  have hwhole : ∀ zeros k, lineFeeds
      (String.ofList ((List.replicate zeros '0' ++ Nat.toDigits 10 n).take k)) = 0 :=
    fun zeros _ => lineFeeds_ofList_eq_zero fun h => hdigits zeros (List.mem_of_mem_take h)
  have hplaces : ∀ zeros k, lineFeeds
      (String.ofList ((List.replicate zeros '0' ++ Nat.toDigits 10 n).drop k)) = 0 :=
    fun zeros _ => lineFeeds_ofList_eq_zero fun h => hdigits zeros (List.mem_of_mem_drop h)
  unfold Decimal.point
  dsimp only
  split
  · exact hwhole _ _
  · rw [lineFeeds_append, lineFeeds_append, hwhole, hplaces]
    rfl

/-- The text of a double has no line feed, even when the double is not a number. -/
theorem lineFeeds_fixed (places : Nat) (x : Float) : lineFeeds (Decimal.fixed places x) = 0 := by
  unfold Decimal.fixed
  split
  · rfl
  · rw [lineFeeds_append, lineFeeds_signText]
    rfl
  · rw [lineFeeds_append, lineFeeds_signText, lineFeeds_point]

theorem lineFeeds_filler (width : Nat) (text : String) : lineFeeds (filler width text) = 0 :=
  lineFeeds_ofList_eq_zero (lineFeed_not_mem_replicate (by decide) _)

@[simp] theorem lineFeeds_alignLeft (width : Nat) (text : String) :
    lineFeeds (alignLeft width text) = lineFeeds text := by
  rw [alignLeft, lineFeeds_append, lineFeeds_filler, Nat.add_zero]

@[simp] theorem lineFeeds_alignRight (width : Nat) (text : String) :
    lineFeeds (alignRight width text) = lineFeeds text := by
  rw [alignRight, lineFeeds_append, lineFeeds_filler, Nat.zero_add]

/-- A line of the overall ranking has the line feeds of the student. -/
theorem lineFeeds_overallLine (x : Standing) :
    lineFeeds (overallLine x) = lineFeeds x.student := by
  have hgap : lineFeeds "   " = 0 := rfl
  have hpercent : lineFeeds "%   " = 0 := rfl
  simp only [overallLine, lineFeeds_append, lineFeeds_alignLeft, lineFeeds_alignRight,
    lineFeeds_fixed, lineFeeds_toString, hgap, hpercent, Nat.zero_add, Nat.add_zero]

/-- A line of a ranking of peers has the line feeds of the student and of the gradeable. -/
theorem lineFeeds_peerLine (x : Standing) :
    lineFeeds (peerLine x) = lineFeeds x.student + lineFeeds (x.gradeable.getD "") := by
  have hgap : lineFeeds "   " = 0 := rfl
  rw [peerLine, lineFeeds_append, lineFeeds_append, lineFeeds_overallLine, hgap, Nat.add_zero]

end Report

/-! ## Standings in lines -/

/-- The names that a standing shows. -/
def Standing.names (x : Standing) : List String :=
  x.student :: x.gradeable.toList

/-- Whether a standing fits on one line: no name in it has a line feed. -/
def Standing.IsOneLine (x : Standing) : Prop :=
  ∀ name ∈ x.names, '\n' ∉ name.toList

namespace Report

open Text

/-- What the lines of a text have to do with the standings for which it was made. -/
structure InLines (line : Standing → String) (standings : List Standing) (text : String) :
    Prop where
  /-- Every standing has a line, and every line feed in a name breaks one in two. -/
  length_eq : (lines text).length =
    standings.length + lineFeeds (String.join (standings.flatMap Standing.names))
  /-- The lines are those of the standings, one for each, exactly when no name has a line feed. -/
  lines_eq_iff : lines text = standings.map line ↔ ∀ x ∈ standings, x.IsOneLine

/-- Lines with the line feeds of the names and no others. -/
theorem inLines_ofLines {line : Standing → String} {standings : List Standing}
    (h : ∀ x ∈ standings, lineFeeds (line x) = lineFeeds (String.join x.names)) :
    InLines line standings (ofLines (standings.map line)) where
  length_eq := by
    rw [length_lines_ofLines, List.length_map]
    congr 1
    induction standings with
    | nil => rfl
    | cons x standings ih =>
      obtain ⟨hx, hrest⟩ := List.forall_mem_cons.1 h
      rw [List.map_cons, List.flatMap_cons, lineFeeds_join_cons, lineFeeds_join_append, hx,
        ih hrest]
  lines_eq_iff := by
    rw [lines_ofLines_eq_iff, List.forall_mem_map]
    refine forall₂_congr fun x hx => ?_
    rw [h x hx, lineFeeds_join_eq_zero_iff, Standing.IsOneLine]

theorem inLines_peers (standings : List Standing) :
    InLines peerLine standings (peers standings) := by
  refine inLines_ofLines fun x _ => ?_
  rw [lineFeeds_peerLine, Standing.names, lineFeeds_join_cons]
  cases x.gradeable with
  | none => rfl
  | some gradeable =>
    rw [Option.toList_some, lineFeeds_join_cons]
    rfl

/-- Of standings without gradeable, the line in an overall ranking shows all names. -/
theorem inLines_overall {standings : List Standing} (h : ∀ x ∈ standings, x.gradeable = none) :
    InLines overallLine standings (overall standings) := by
  refine inLines_ofLines fun x hx => ?_
  rw [lineFeeds_overallLine, Standing.names, h x hx, lineFeeds_join_cons]
  rfl

end Report
end Resemblance
