import SoftDelete.Join.Condition
import SoftDelete.Join.Kind

namespace SoftDelete

structure ItemRange where
  start : Nat
  stop : Nat
  deriving DecidableEq, Repr

/-- A table as it is referred to: by its name as written, or, if there is none, as the rows of a
sub-select. -/
structure Reference where
  name : Option Text
  aliasName : Option Text
  items : ItemRange
  deriving DecidableEq, Repr

def Reference.visibleName (r : Reference) : Option Text :=
  r.aliasName <|> r.name

inductive Join.Clause where
  | on (condition : Condition) (items : ItemRange)
  | using (columns : List Text)
  deriving Repr

structure Join where
  kind : Join.Kind
  table : Reference
  clause : Option Join.Clause
  keywordItems : ItemRange
  items : ItemRange
  deriving Repr

structure References where
  first : Reference
  joins : List Join
  deriving Repr

end SoftDelete
