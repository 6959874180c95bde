namespace Stepwise.Text

/-- Whether a code point lies in one of the closed ranges, which ascend. -/
def inRanges (ranges : List (Nat × Nat)) (n : Nat) : Bool :=
  ranges.any fun r => r.1 ≤ n && n ≤ r.2

end Stepwise.Text
