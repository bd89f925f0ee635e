/-!
# Ranges of code points

A set of characters, given by the first and the last code point of each of its runs.
-/

namespace ScopedScript.Text

/-- Whether a code point lies in one of some ranges. -/
def inRanges (ranges : List (Nat × Nat)) (n : Nat) : Bool :=
  ranges.any fun (first, last) => first ≤ n && n ≤ last

/-- Whether ranges are nonempty and in order, with a gap between each and the next. -/
def areSeparate (ranges : List (Nat × Nat)) : Bool :=
  ranges.all (fun (first, last) => first ≤ last) &&
    (ranges.zip ranges.tail).all fun ((_, last), (next, _)) => last + 1 < next

/-- How many code points lie in separate ranges. -/
def rangesSize (ranges : List (Nat × Nat)) : Nat :=
  ranges.foldl (fun size (first, last) => size + (last - first + 1)) 0

end ScopedScript.Text
