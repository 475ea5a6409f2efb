/-!
# Sets of characters

A set of characters is kept as the ascending list of the code points at which membership changes:
the first entry opens the set, the second closes it, and so on.
-/

namespace StackScript.Text

/-- A set of characters, given by the code points where membership changes. -/
structure CharSet where
  changes : List Nat

/-- A character is in the set when an odd number of changes lie at or below it. -/
def CharSet.contains (s : CharSet) (c : Char) : Bool :=
  (s.changes.takeWhile (· ≤ c.toNat)).length % 2 == 1

end StackScript.Text
