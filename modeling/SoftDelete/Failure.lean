namespace SoftDelete

inductive Failure where
  | unmatched (reason : String)
  | unclosedSubselect (offset : Nat)
  | unclosedQuote (offset : Nat)
  | joinWithoutOn (join : String)
  | tooManyJoins (limit : Nat)
  | nestedTooDeep (limit : Nat)
  | malformed (reason : String)
  deriving DecidableEq, Repr

namespace Failure

def kind : Failure → String
  | .unmatched _ => "parse_failure"
  | .unclosedSubselect _ => "unterminated_subquery"
  | .unclosedQuote _ => "unterminated_literal"
  | .joinWithoutOn _ => "unsupported_join_condition"
  | .tooManyJoins _ => "too_many_joins"
  | .nestedTooDeep _ => "nesting_too_deep"
  | .malformed _ => "verification_failed"

def message : Failure → String
  | .unmatched reason => s!"failed to match table references: {reason}"
  | .unclosedSubselect offset => s!"sub-select opened at byte {offset} is never closed"
  | .unclosedQuote offset => s!"quoted text opened at byte {offset} is never closed"
  | .joinWithoutOn join => s!"cannot add an ON condition to a {join} join"
  | .tooManyJoins limit => s!"more than {limit} joins in one FROM clause"
  | .nestedTooDeep limit => s!"sub-selects nested deeper than {limit} levels"
  | .malformed reason => s!"rewritten statement does not parse: {reason}"

end Failure

end SoftDelete
