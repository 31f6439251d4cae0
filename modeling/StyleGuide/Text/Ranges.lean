/-!
# Character classes as ranges of code points

A class of characters is given by the first and the last code point of each of its ranges.
-/

namespace StyleGuide.Text

def inRanges (ranges : List (Nat × Nat)) (n : Nat) : Bool :=
  ranges.any fun (first, last) => first ≤ n && n ≤ last

end StyleGuide.Text
