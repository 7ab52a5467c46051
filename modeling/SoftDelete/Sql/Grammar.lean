import SoftDelete.Sql.Phrase

/-!
A grammar of `SELECT` statements, to tell whether a text with its filters is still a statement. It
knows the clauses and their order, that parentheses pair up, that a parenthesis with `SELECT` holds
a statement, and that in a condition no two names stand side by side. What else the clauses and the
arguments of functions hold is left open, as in `CAST(x AS CHAR)` or `COUNT(*) OVER (ORDER BY x)`.
-/

namespace SoftDelete

namespace Grammar

open Phrase

def clauseWords : List String :=
  ["SELECT", "FROM", "WHERE", "GROUP", "HAVING", "ORDER", "LIMIT", "UNION", "EXCEPT", "INTERSECT"]

def closingWords : List String :=
  ["WINDOW", "FETCH", "FOR", "LOCK", "INTO", "PROCEDURE"]

def joinWords : List String :=
  ["JOIN", "INNER", "CROSS", "LEFT", "RIGHT", "NATURAL", "STRAIGHT_JOIN", "ON"]

def linkWords : List String :=
  ["AND", "OR", "XOR", "NOT", "IS", "NULL", "TRUE", "FALSE", "UNKNOWN", "IN", "LIKE", "ILIKE",
    "RLIKE", "REGEXP", "SIMILAR", "TO", "SOUNDS", "BETWEEN", "ESCAPE", "COLLATE", "BINARY", "DIV",
    "MOD", "MEMBER", "OF", "EXISTS", "ANY", "ALL", "SOME", "DISTINCT", "ROW", "CASE", "WHEN", "THEN",
    "ELSE", "END", "AGAINST", "OVER", "AT", "ZONE", "DATE", "TIME", "TIMESTAMP", "INTERVAL",
    "MICROSECOND", "SECOND", "MINUTE", "HOUR", "DAY", "WEEK", "MONTH", "QUARTER", "YEAR",
    "SECOND_MICROSECOND", "MINUTE_MICROSECOND", "MINUTE_SECOND", "HOUR_MICROSECOND", "HOUR_SECOND",
    "HOUR_MINUTE", "DAY_MICROSECOND", "DAY_SECOND", "DAY_MINUTE", "DAY_HOUR", "YEAR_MONTH", "FULL",
    "OUTER"]

def name : Phrase :=
  one fun t => match t.kind with
    | .word => !(clauseWords ++ closingWords ++ joinWords ++ linkWords).any t.spells
    | .quoted q => q == .backtick
    | _ => false

/-- Beside a point any word is a name. -/
def qualifiedName : Phrase :=
  (name <|> (one Token.canName ++ mark .dot ++ one Token.canName)) ++
    many (mark .dot ++ one Token.canName)

def sign : Phrase :=
  one fun t => match t.kind with
    | .word => linkWords.any t.spells
    | .quoted q => q != .backtick
    | .number | .operator | .dot | .param | .symbol => true
    | .lparen | .rparen | .comma | .semicolon => false

structure Inner where
  query : Phrase
  condition : Phrase
  content : Phrase

variable (inner : Inner)

def opening : Phrase :=
  anyWord ["SELECT", "WITH"]

def combining : Phrase :=
  anyWord ["UNION", "EXCEPT", "INTERSECT"] ++ optional (anyWord ["ALL", "DISTINCT"])

/-- A statement in parentheses, known by its first word, so that it is read only once. -/
def subselect : Phrase :=
  enclosed (before opening ++ inner.query)

def parenthesis : Phrase :=
  subselect inner <|> enclosed (without opening ++ inner.content)

def condition : Phrase :=
  several (anyOf [
    anyWord ["LEFT", "RIGHT", "OVER", "AGAINST"] ++ parenthesis inner,
    qualifiedName ++ (parenthesis inner <|> without (name <|> mark .lparen)),
    subselect inner ++ many (combining ++ subselect inner),
    enclosed (without opening ++ listed inner.condition),
    sign])

def part (ends : List String) : Phrase :=
  anyOf [
    word "ON" ++ condition inner,
    mark .dot ++ one Token.canName,
    parenthesis inner,
    one fun t => match t.kind with
      | .word => !("ON" :: ends).any t.spells
      | .lparen | .rparen | .semicolon => false
      | _ => true]

def content : Phrase :=
  many (part inner [])

def clause : Phrase :=
  several (part inner clauseWords)

def ordering : Phrase :=
  optional (words ["ORDER", "BY"] ++ clause inner) ++ optional (word "LIMIT" ++ clause inner)

def closing : Phrase :=
  optional (anyWord closingWords ++ clause inner)

def select : Phrase :=
  word "SELECT" ++ clause inner ++
    optional (word "FROM" ++ clause inner) ++
    optional (word "WHERE" ++ condition inner ++ closing inner) ++
    optional (words ["GROUP", "BY"] ++ clause inner) ++
    optional (word "HAVING" ++ clause inner)

def body : Phrase :=
  anyOf [select inner, anyWord ["VALUES", "TABLE"] ++ clause inner, enclosed inner.query]

def commonTables : Phrase :=
  word "WITH" ++ optional (word "RECURSIVE") ++
    listed (one Token.canName ++ optional (enclosed inner.content) ++ word "AS" ++
      enclosed inner.query)

def query : Phrase :=
  optional (commonTables inner) ++ body inner ++
    many (combining ++ body inner) ++ ordering inner ++ closing inner

def within : Nat → Inner
  | 0 => ⟨never, never, never⟩
  | room + 1 =>
      let inner := within room
      ⟨query inner, condition inner, content inner⟩

end Grammar

def parseStatements (sql : Text) : Except String Unit :=
  match Lexed.ofText sql with
  | .error e => .error e.message
  | .ok lexed =>
      let inner := Grammar.within (lexed.tokens.length + 1)
      let later := inner.query <|> (.without Grammar.opening ++ inner.content)
      let statements := inner.query ++ .many (.mark .semicolon ++ later)
      match statements.rest? lexed.tokens with
      | none => .error "no SELECT statement"
      | some [] => .ok ()
      | some (t :: _) => .error s!"no end of statement before `{String.ofList t.text}`"

end SoftDelete
