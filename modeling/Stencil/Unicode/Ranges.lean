/-!
# Ranges of characters

A property of characters is a list of ranges of code points, ends included.
-/

namespace Stencil.Unicode

def inRanges (ranges : List (Nat × Nat)) (code : Nat) : Bool :=
  ranges.any fun range => range.1 ≤ code && code ≤ range.2

end Stencil.Unicode
