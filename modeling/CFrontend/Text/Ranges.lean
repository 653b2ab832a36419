/-!
A property of characters as a list of inclusive ranges in ascending order.
-/
namespace CFrontend.Text

/-- Membership in ascending inclusive ranges; the search stops at the first range that starts
    above the code point. -/
def inRanges (code : Nat) : List (Nat × Nat) → Bool
  | [] => false
  | (low,high) :: rest => if code < low then false else code ≤ high || inRanges code rest

end CFrontend.Text
