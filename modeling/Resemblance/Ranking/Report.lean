import Resemblance.Decimal.Fixed
import Resemblance.Ranking.Basic

/-!
# Rankings as text

A ranking is written as one line for each standing, in columns.  A column is filled up with spaces
to a least width in characters, and a longer entry is not cut.
-/

set_option autoImplicit false
namespace Resemblance
namespace Report

/-- The spaces that a text of a column lacks. -/
def filler (width : Nat) (s : String) : String :=
  String.ofList (List.replicate (width - s.length) ' ')

/-- A text at the left of its column. -/
def alignLeft (width : Nat) (s : String) : String :=
  s ++ filler width s

/-- A text at the right of its column. -/
def alignRight (width : Nat) (s : String) : String :=
  filler width s ++ s

/-- The line of a standing in the overall ranking: percentage, student and version. -/
def overallLine (s : Standing) : String :=
  alignRight 6 (Decimal.fixed 2 s.percent.toFloat) ++ "%   " ++ alignLeft 15 s.student ++ "   " ++
    alignRight 3 (toString s.version.toNat)

/-- The line of a standing in a ranking of peers, which ends with the gradeable. -/
def peerLine (s : Standing) : String :=
  overallLine s ++ "   " ++ s.gradeable.getD ""

/-- Lines, each with a line feed at its end. -/
def ofLines (lines : List String) : String :=
  String.join (lines.map (· ++ "\n"))

/-- The text of an overall ranking. -/
def overall (standings : List Standing) : String :=
  ofLines (standings.map overallLine)

/-- The text of a ranking of peers. -/
def peers (standings : List Standing) : String :=
  ofLines (standings.map peerLine)

end Report
end Resemblance
