import SoftDelete.Sql.Lexed

namespace SoftDelete

namespace Token

/-- Bare, between backticks or between double quotes; text between single quotes is a literal. -/
def namesFlag (column : Text) (t : Token) : Bool :=
  match t.kind with
  | .word | .quoted .backtick | .quoted .double => Text.sameWord t.content column
  | _ => false

end Token

def comparingMarks : List Text :=
  ["=", "<>", "!=", "<", ">", "<=", ">=", "<=>"].map String.toList

def opensComparison : List Token → Bool
  | [] => false
  | t :: ts =>
      if t.kind = .operator then comparingMarks.contains t.text
      else t.spells "IS" || t.spells "IN" || t.spells "LIKE" ||
        (t.spells "NOT" && ts.head?.any fun u => u.spells "IN" || u.spells "LIKE")

def comparedIn (column : Text) : List Token → Bool
  | [] => false
  | t :: ts => (t.namesFlag column && opensComparison ts) || comparedIn column ts

/-- A text that cannot be cut into tokens compares nothing. -/
def comparesFlag (sql column : Text) : Bool :=
  match Lexed.ofText sql with
  | .ok l => comparedIn column l.tokens
  | .error _ => false

end SoftDelete
