import SoftDelete.Join.Condition
import SoftDelete.Join.Reading.Basic

/-!
Reading join conditions:

    condition := term ((AND | OR) term)*
    term      := NOT term | ( condition ) | operand comparator operand

Both levels of the grammar nest, down to a limit on `NOT`, parentheses and value lists.
-/

namespace SoftDelete

def Comparator.ofOperator? (text : Text) : Option Comparator :=
  [("=", eq), ("<>", notEq), ("!=", notEq), ("<", lt), ("<=", ltEq), (">", gt), (">=", gtEq),
    ("<=>", nullSafeEq)].findSome? fun spelling =>
      if spelling.1.toList = text then some spelling.2 else none

def Comparator.forms : List (List String × Comparator) :=
  [(["IS", "NOT"], isNot), (["IS"], is), (["LIKE"], like), (["IN"], inside),
    (["NOT", "LIKE"], notLike), (["NOT", "IN"], notInside)]

inductive Connective where
  | and
  | or
  deriving DecidableEq, Repr

def Connective.ofItem? (i : Item) : Option Connective :=
  if i.spells "AND" || (i.hasKind .operator && i.text == ['&', '&']) then some .and
  else if i.spells "OR" || (i.hasKind .operator && i.text == ['|', '|']) then some .or
  else none

def Connective.join : Connective → Condition → Condition → Condition
  | .and => .and
  | .or => .or

namespace Reading

def comparator : List Item → Except Failure (Comparator × Nat)
  | [] => .error (misfit "expected a comparison operator" [])
  | i :: rest =>
      match if i.hasKind .operator then Comparator.ofOperator? i.text else none with
      | some op => .ok (op, 1)
      | none =>
          match Comparator.forms.find? fun form => startsWithWords form.1 (i :: rest) with
          | some form => .ok (form.2, form.1.length)
          | none => .error (misfit "expected a comparison operator" (i :: rest))

def maxNesting : Nat := 128

def nestedTooDeep : Failure :=
  .unmatched s!"join condition nested deeper than {maxNesting} levels"

def constantWords : List Text :=
  ["NULL", "TRUE", "FALSE", "UNKNOWN"].map String.toList

def namedOperand (items : List Item) : Except Failure (Operand × Nat) := do
  let (first, n) ← name "expected an operand" items
  match items.drop n with
  | [] => .ok (.column [first], n)
  | i :: rest =>
      if i.hasKind .lparen then
        match enclosed? Item.kind? 0 rest with
        | none => .error (misfit "expected `)` closing function call" [])
        | some (args, _, _) => .ok (.call first (outputOf args), n + (args.length + 2))
      else do
        let (parts, m) ← linked (name "expected a column name after `.`") (mark? .dot) (i :: rest)
        .ok (.column (first :: parts.map Prod.snd), n + m)

/-- An operand with `room` levels of nesting left. Text between quotes is a literal unless a point
follows; `after` is the item behind the last one of `items`. -/
def operand (after : Option Item) (room : Nat) (items : List Item) :
    Except Failure (Operand × Nat) :=
  match items with
  | [] => .error (misfit "expected an operand" [])
  | i :: rest =>
      match i.kind? with
      | none => .ok (.subselect, 1)
      | some .number => .ok (.literal i.text, 1)
      | some .param => .ok (.param, 1)
      | some .operator =>
          match i.text, rest with
          | ['-'], j :: _ | ['+'], j :: _ =>
              if j.hasKind .number then .ok (.literal (i.text ++ j.text), 2)
              else .error (misfit "expected an operand" (i :: rest))
          | _, _ => .error (misfit "expected an operand" (i :: rest))
      | some .lparen =>
          match room with
          | 0 => .error nestedTooDeep
          | room + 1 => do
              let (values, n) ← separated (operand after room) .comma rest
              let (_, m) ← expect .rparen "expected `)` closing value list" (rest.drop n)
              .ok (.list values, 1 + n + m)
      | some .word =>
          if constantWords.any (Text.sameWord i.text) then
            .ok (.literal (i.text.map Char.toUpper), 1)
          else namedOperand (i :: rest)
      | some (.quoted .backtick) => namedOperand (i :: rest)
      | some (.quoted _) =>
          if (rest.head? <|> after).any (Item.hasKind · .dot) then namedOperand (i :: rest)
          else .ok (.literal i.text, 1)
      | _ => .error (misfit "expected an operand" (i :: rest))

def connected (term : List Item → Except Failure (Condition × Nat)) (items : List Item) :
    Except Failure (Condition × Nat) := do
  let (first, n) ← term items
  let (more, m) ← linked term Connective.ofItem? (items.drop n)
  .ok (more.foldl (fun lhs step => step.1.join lhs step.2) first, n + m)

def comparison (after : Option Item) (room : Nat) (items : List Item) :
    Except Failure (Condition × Nat) := do
  let (lhs, n) ← operand after room items
  let (op, m) ← comparator (items.drop n)
  let (rhs, k) ← operand after room (items.drop (n + m))
  .ok (.compare lhs op rhs, n + m + k)

def term (after : Option Item) (room : Nat) (items : List Item) :
    Except Failure (Condition × Nat) :=
  match items with
  | [] => comparison after room []
  | i :: rest =>
      if i.spells "NOT" then
        match room with
        | 0 => .error nestedTooDeep
        | room + 1 => do
            let (inner, n) ← term after room rest
            .ok (.not inner, 1 + n)
      else if i.hasKind .lparen then
        match room with
        | 0 => .error nestedTooDeep
        | room + 1 => do
            let (inner, n) ← connected (term after room) rest
            let (_, m) ← expect .rparen "expected `)` in join condition" (rest.drop n)
            .ok (.group inner, 1 + n + m)
      else comparison after room (i :: rest)

def condition (after : Option Item) (room : Nat) (items : List Item) :
    Except Failure (Condition × Nat) :=
  connected (term after room) items

end Reading

end SoftDelete
