/-! A class of characters is given by the ranges of its code points, in order. -/
namespace CheckedLisp.Text

/-- Whether one of the ranges, each with its first and last code point, holds `c`. -/
def within (ranges : List (Nat × Nat)) (c : Char) : Bool :=
  ranges.any fun (low, high) => low ≤ c.toNat && c.toNat ≤ high

end CheckedLisp.Text
