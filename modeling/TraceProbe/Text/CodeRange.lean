/-!
# Ranges of code points

A table of a character property is a list of ranges of code points.
-/

namespace TraceProbe.Text

/-- First and last code point of a range. -/
abbrev CodeRange := Nat × Nat

/-- Whether a character lies in a range. -/
def CodeRange.holds (range : CodeRange) (c : Char) : Bool :=
  range.1 ≤ c.toNat && c.toNat ≤ range.2

end TraceProbe.Text
