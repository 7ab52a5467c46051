import SoftDelete.Select.Nesting
import SoftDelete.Sql.Comparison
import SoftDelete.Sql.Grammar

namespace SoftDelete

/-- Whether the first token that is no opening parenthesis is `SELECT`. A text that cannot be cut
into tokens passes, so that it is told why. -/
def opensWithSelect (sql : Text) : Bool :=
  match Lexed.ofText sql with
  | .ok l => (l.tokens.find? (·.kind != .lparen)).any (·.spells "SELECT")
  | .error _ => true

structure Policy where
  catalog : Catalog
  options : Options
  deriving Repr

namespace Policy

/-- Refuses a text that cannot be parsed although the statement it was made from can. -/
def verified (parse : Text → Except String Unit) (sql filtered : Text) : Except Failure Text :=
  match parse sql, parse filtered with
  | .ok _, .error reason => .error (.malformed reason)
  | _, _ => .ok filtered

def attempt (parse : Text → Except String Unit) (p : Policy) (sql : Text) : Attempt Text := do
  let filtered ← filterLevel p.catalog p.options p.options.maxDepth 0 0 sql
  if p.options.verifyOutput ∧ filtered ≠ sql then
    Attempt.ofExcept (verified parse sql filtered)
  else pure filtered

def outcomeOf (sql : Text) (a : Attempt Text) : Filtering :=
  match a.result with
  | .ok filtered =>
      let outcome :=
        if filtered ≠ sql then .filtered
        else if a.notes.problems.isEmpty then .unchanged
        else .failedOpen
      ⟨sql, filtered, outcome, a.notes.constrained, a.notes.problems⟩
  | .error e => ⟨sql, sql, .failedOpen, [], a.notes.problems ++ [⟨e, 0⟩]⟩

def filterWith (parse : Text → Except String Unit) (p : Policy) (sql : Text) : Filtering :=
  if !opensWithSelect sql then .untouched sql .notSelect
  else if comparesFlag sql p.options.column then .untouched sql .explicitCondition
  else outcomeOf sql (p.attempt parse sql)

def filter (p : Policy) (sql : Text) : Filtering :=
  p.filterWith parseStatements sql

end Policy

end SoftDelete
