/-!
# Sets of characters

A property of characters that a standard lays down is given by a table of ranges of code
points, both ends included.
-/

namespace ProcessSpaces.Text

/-- A set of characters, as a list of ranges of code points. -/
abbrev Ranges := List (Nat × Nat)

/-- Whether some range holds the character. -/
def Ranges.holds (ranges : Ranges) (c : Char) : Bool :=
  ranges.any fun r => r.1 ≤ c.toNat && c.toNat ≤ r.2

end ProcessSpaces.Text
