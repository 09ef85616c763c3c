/-! Sets of code points, given by their boundaries. -/
namespace EntityQuery.Text

/-- Ascending code points at which membership flips, the first one into the set. -/
abbrev CodeSet := List Nat

def CodeSet.mem : CodeSet → Nat → Bool
  | [], _ => false
  | [a], n => a ≤ n
  | a :: b :: rest, n => if n < b then a ≤ n else CodeSet.mem rest n

end EntityQuery.Text
