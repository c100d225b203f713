/-!
# Text/Ranges — closed ranges of code points

    170, 1, 10, 1      170 code points left out, one taken, ten left out, one taken

A table of code points tells in turn how many are left out and how many are taken.
-/

namespace ModelExport.CodePoints

def ranges (n : Nat) : List Nat → List (Nat × Nat)
  | gap :: size :: rest => (n + gap, n + gap + size - 1) :: ranges (n + gap + size) rest
  | _ => []

def within (ranges : List (Nat × Nat)) (n : Nat) : Bool := ranges.any fun r => r.1 ≤ n && n ≤ r.2

end ModelExport.CodePoints
