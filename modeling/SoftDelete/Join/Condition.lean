import SoftDelete.Text.Basic

namespace SoftDelete

inductive Comparator where
  | eq
  | notEq
  | lt
  | ltEq
  | gt
  | gtEq
  | nullSafeEq
  | like
  | notLike
  | is
  | isNot
  | inside
  | notInside
  deriving DecidableEq, Repr

def Comparator.text : Comparator → Text
  | .eq => "=".toList
  | .notEq => "<>".toList
  | .lt => "<".toList
  | .ltEq => "<=".toList
  | .gt => ">".toList
  | .gtEq => ">=".toList
  | .nullSafeEq => "<=>".toList
  | .like => "LIKE".toList
  | .notLike => "NOT LIKE".toList
  | .is => "IS".toList
  | .isNot => "IS NOT".toList
  | .inside => "IN".toList
  | .notInside => "NOT IN".toList

inductive Operand where
  | column (parts : List Text)
  | literal (text : Text)
  | param
  | call (name args : Text)
  | list (values : List Operand)
  | subselect
  deriving Repr

mutual

def Operand.text : Operand → Text
  | .column parts => Text.joined "." parts
  | .literal text => text
  | .param => ['?']
  | .call name args => name ++ '(' :: (args ++ [')'])
  | .list values => '(' :: (Operand.listText values ++ [')'])
  | .subselect => "(<subquery>)".toList

def Operand.listText : List Operand → Text
  | [] => []
  | [value] => value.text
  | value :: values => value.text ++ ", ".toList ++ Operand.listText values

end

inductive Condition where
  | compare (lhs : Operand) (op : Comparator) (rhs : Operand)
  | not (inner : Condition)
  | group (inner : Condition)
  | and (lhs rhs : Condition)
  | or (lhs rhs : Condition)
  deriving Repr

/-- No parentheses are added: `AND` and `OR` are read from left to right without precedence. -/
def Condition.text : Condition → Text
  | .compare lhs op rhs => lhs.text ++ ' ' :: (op.text ++ ' ' :: rhs.text)
  | .not inner => "NOT ".toList ++ inner.text
  | .group inner => '(' :: (inner.text ++ [')'])
  | .and lhs rhs => lhs.text ++ (" AND ".toList ++ rhs.text)
  | .or lhs rhs => lhs.text ++ (" OR ".toList ++ rhs.text)

end SoftDelete
