namespace SoftDelete

inductive Join.Shape where
  | inner
  | left
  | right
  deriving DecidableEq, Repr

inductive Join.Kind where
  | comma
  | join
  | inner
  | cross
  | straight
  | left
  | leftOuter
  | right
  | rightOuter
  | naturalLeft
  | naturalLeftOuter
  | naturalRight
  | naturalRightOuter
  deriving DecidableEq, Repr

namespace Join.Kind

/-- The keywords of each join that has any, every form in front of those that end it. -/
def forms : List (Join.Kind × List String) :=
  [(.naturalLeftOuter, ["NATURAL", "LEFT", "OUTER", "JOIN"]),
    (.naturalRightOuter, ["NATURAL", "RIGHT", "OUTER", "JOIN"]),
    (.naturalLeft, ["NATURAL", "LEFT", "JOIN"]),
    (.naturalRight, ["NATURAL", "RIGHT", "JOIN"]),
    (.leftOuter, ["LEFT", "OUTER", "JOIN"]),
    (.rightOuter, ["RIGHT", "OUTER", "JOIN"]),
    (.inner, ["INNER", "JOIN"]),
    (.cross, ["CROSS", "JOIN"]),
    (.straight, ["STRAIGHT_JOIN"]),
    (.left, ["LEFT", "JOIN"]),
    (.right, ["RIGHT", "JOIN"]),
    (.join, ["JOIN"])]

def shape : Join.Kind → Join.Shape
  | .comma | .join | .inner | .cross | .straight => .inner
  | .left | .leftOuter | .naturalLeft | .naturalLeftOuter => .left
  | .right | .rightOuter | .naturalRight | .naturalRightOuter => .right

def isNatural : Join.Kind → Bool
  | .naturalLeft | .naturalLeftOuter | .naturalRight | .naturalRightOuter => true
  | _ => false

def keyword : Join.Kind → String
  | .comma => ","
  | .join => "JOIN"
  | .inner => "INNER JOIN"
  | .cross => "CROSS JOIN"
  | .straight => "STRAIGHT_JOIN"
  | .left => "LEFT JOIN"
  | .leftOuter => "LEFT OUTER JOIN"
  | .right => "RIGHT JOIN"
  | .rightOuter => "RIGHT OUTER JOIN"
  | .naturalLeft => "NATURAL LEFT JOIN"
  | .naturalLeftOuter => "NATURAL LEFT OUTER JOIN"
  | .naturalRight => "NATURAL RIGHT JOIN"
  | .naturalRightOuter => "NATURAL RIGHT OUTER JOIN"

end Join.Kind

end SoftDelete
