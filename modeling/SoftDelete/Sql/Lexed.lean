import SoftDelete.Failure
import SoftDelete.Sql.Token
import SoftDelete.Text.Alphanumeric
import SoftDelete.Text.Blank

namespace SoftDelete

def isNamePart (c : Char) : Bool :=
  isAlphanumeric c || c == '_' || c == '$'

inductive GapState where
  | between
  | lineComment
  | opening
  | blockComment
  | closing
  deriving DecidableEq, Repr

/-- A sharp opens a comment, and so do two dashes in front of white space, a control character or
the end: `5--1` subtracts a negative number. -/
def opensLineComment (c : Char) (s : Text) : Bool :=
  match c, s with
  | '#', _ => true
  | '-', ['-'] => true
  | '-', '-' :: d :: _ => isBlank d || isControl d
  | _, _ => false

def gapLength : GapState → Text → Nat
  | _, [] => 0
  | .between, c :: s =>
      if isBlank c then gapLength .between s + 1
      else if opensLineComment c s then gapLength .lineComment s + 1
      else if c == '/' && s.head? == some '*' then gapLength .opening s + 1
      else 0
  | .lineComment, c :: s => gapLength (if c == '\n' then .between else .lineComment) s + 1
  | .opening, _ :: s => gapLength .blockComment s + 1
  | .blockComment, c :: s =>
      gapLength (if c == '*' && s.head? == some '/' then .closing else .blockComment) s + 1
  | .closing, _ :: s => gapLength .between s + 1

/-- Within quotes a doubled quotation mark stands for one, and a backslash, except between
backticks, keeps the next character from ending the text. -/
def Quote.escapes (q : Quote) (c d : Char) : Bool :=
  (c == '\\' && q != .backtick) || (c == q.mark && d == q.mark)

def quotedLength? (q : Quote) : Text → Option Nat
  | [] => none
  | [c] => if c == q.mark then some 1 else none
  | c :: d :: s =>
      if q.escapes c d then (quotedLength? q s).map (· + 2)
      else if c == q.mark then some 1
      else (quotedLength? q (d :: s)).map (· + 1)

/-- Operators, each in front of those it begins with. -/
def operators : List Text :=
  ["<=>", "<=", "<>", "<", ">=", ">", "!=", "||", "|", "&&", "&", "=", "+", "-", "*", "/", "%",
    "^", "~"].map String.toList

def punctuation : Char → Token.Kind
  | '(' => .lparen
  | ')' => .rparen
  | ',' => .comma
  | '.' => .dot
  | ';' => .semicolon
  | '?' => .param
  | _ => .symbol

def fractionLength : Text → Nat
  | '.' :: d :: s => if d.isDigit then (s.takeWhile Char.isDigit).length + 2 else 0
  | _ => 0

def wordLexeme (c : Char) (s : Text) : Token.Kind × Nat :=
  let n := (s.takeWhile isNamePart).length
  if (c :: s.take n).all Char.isDigit then (.number, n + fractionLength (s.drop n))
  else (.word, n)

def lexeme? (c : Char) (s : Text) : Option (Token.Kind × Nat) :=
  match Quote.ofMark? c with
  | some q => (quotedLength? q s).map fun n => (.quoted q, n)
  | none =>
      if isNamePart c then some (wordLexeme c s)
      else match operators.find? (·.isPrefixOf (c :: s)) with
        | some op => some (.operator, op.length - 1)
        | none => some (punctuation c, 0)

structure Lexed where
  tokens : List Token
  tail : Text
  deriving DecidableEq, Repr

def Lexed.source (l : Lexed) : Text :=
  sourceOf l.tokens ++ l.tail

/-- The error is the byte offset of a quotation mark that opens a quotation without end. -/
def lex (s : Text) : Except Nat Lexed :=
  match _h : s.drop (gapLength .between s) with
  | [] => .ok ⟨[], s⟩
  | c :: r =>
      let gap := s.take (gapLength .between s)
      match lexeme? c r with
      | none => .error (Text.byteSize gap)
      | some (kind, n) =>
          let token : Token := ⟨gap, kind, c :: r.take n⟩
          match lex (r.drop n) with
          | .ok rest => .ok ⟨token :: rest.tokens, rest.tail⟩
          | .error offset => .error (Text.byteSize token.source + offset)
termination_by s.length
decreasing_by
  have h' := congrArg List.length _h
  simp only [List.length_drop, List.length_cons] at h' ⊢
  omega

theorem source_of_lex {s : Text} {l : Lexed} (h : lex s = .ok l) : l.source = s := by
  fun_induction lex s generalizing l with
  | case1 s hs => cases h; simp [Lexed.source]
  | case2 => cases h
  | case3 s c r hs gap kind n _ token rest _ =>
      rename_i ih
      cases h
      have hr : sourceOf rest.tokens ++ rest.tail = r.drop n := ih ‹_›
      have := List.take_append_drop (gapLength .between s) s
      rw [hs] at this
      simp [Lexed.source, Token.source, token, gap, hr, this]
  | case4 => cases h

def Lexed.ofText (s : Text) : Except Failure Lexed :=
  (lex s).mapError .unclosedQuote

theorem Lexed.source_of_ofText {s : Text} {l : Lexed} (h : Lexed.ofText s = .ok l) : l.source = s := by
  unfold Lexed.ofText at h
  cases hs : lex s with
  | ok m => rw [hs] at h; cases h; exact source_of_lex hs
  | error n => rw [hs] at h; cases h

def spansFrom (offset : Nat) : List Token → List (Nat × Nat)
  | [] => []
  | t :: ts =>
      let start := offset + Text.byteSize t.gap
      let stop := start + Text.byteSize t.text
      (start, stop) :: spansFrom stop ts

end SoftDelete
