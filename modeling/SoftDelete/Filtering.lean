import SoftDelete.Failure
import SoftDelete.Text.Basic
import SoftDelete.Text.Json

namespace SoftDelete

inductive Outcome where
  | filtered
  | unchanged
  | explicitCondition
  | notSelect
  | failedOpen
  deriving DecidableEq, Repr

def Outcome.name : Outcome → String
  | .filtered => "rewritten"
  | .unchanged => "unchanged"
  | .explicitCondition => "explicit_condition"
  | .notSelect => "not_select"
  | .failedOpen => "failed_open"

structure Problem where
  failure : Failure
  depth : Nat
  deriving DecidableEq, Repr

def Problem.json (p : Problem) : String :=
  Json.object [
    ("kind", Json.string p.failure.kind.toList),
    ("message", Json.string p.failure.message.toList),
    ("depth", toString p.depth)]

structure Filtering where
  given : Text
  result : Text
  outcome : Outcome
  constrained : List Text
  problems : List Problem
  deriving DecidableEq, Repr

def Filtering.untouched (sql : Text) (outcome : Outcome) : Filtering :=
  ⟨sql, sql, outcome, [], []⟩

def Filtering.json (f : Filtering) : String :=
  Json.object [
    ("original_sql", Json.string f.given),
    ("rewritten_sql", Json.string f.result),
    ("outcome", Json.string f.outcome.name.toList),
    ("constrained_tables", Json.list Json.string f.constrained),
    ("diagnostics", Json.list Problem.json f.problems)]

end SoftDelete
