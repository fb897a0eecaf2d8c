/-
  UniversalMachine.Text.Ranges

  Classes of characters given as ranges of code points.
-/

namespace UniversalMachine.Text

/-- Whether a character lies in one of some ranges of code points, ends included. -/
def inRanges (ranges : List (Nat × Nat)) (c : Char) : Bool :=
  ranges.any fun (low, high) => low ≤ c.toNat && c.toNat ≤ high

end UniversalMachine.Text
