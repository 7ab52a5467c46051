namespace SoftDelete

/-- The set is written as the ascending code points at which membership changes, beginning with
the first member. -/
structure CodePoints where
  changes : List Nat

def CodePoints.contains (s : CodePoints) (c : Char) : Bool :=
  (s.changes.takeWhile (· ≤ c.toNat)).length % 2 == 1

end SoftDelete
