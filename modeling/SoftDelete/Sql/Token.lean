import SoftDelete.Text.Basic

namespace SoftDelete

inductive Quote where
  | backtick
  | single
  | double
  deriving DecidableEq, Repr

namespace Quote

def mark : Quote → Char
  | .backtick => '`'
  | .single => '\''
  | .double => '"'

def ofMark? : Char → Option Quote
  | '`' => some .backtick
  | '\'' => some .single
  | '"' => some .double
  | _ => none

@[simp] theorem ofMark?_mark (q : Quote) : ofMark? q.mark = some q := by
  cases q <;> rfl

theorem eq_mark_of_ofMark? {c : Char} {q : Quote} (h : ofMark? c = some q) : c = q.mark := by
  unfold ofMark? at h
  split at h <;> simp_all [mark] <;> subst h <;> rfl

end Quote

inductive Token.Kind where
  | word
  | quoted (q : Quote)
  | number
  | operator
  | lparen
  | rparen
  | comma
  | dot
  | semicolon
  | param
  | symbol
  deriving DecidableEq, Repr

structure Token where
  gap : Text
  kind : Token.Kind
  text : Text
  deriving DecidableEq, Repr

namespace Token

def source (t : Token) : Text :=
  t.gap ++ t.text

def spells (t : Token) (word : String) : Bool :=
  t.kind == .word && Text.sameWord t.text word.toList

def canName (t : Token) : Bool :=
  match t.kind with
  | .word | .quoted _ => true
  | _ => false

def content (t : Token) : Text :=
  match t.kind with
  | .quoted _ => t.text.tail.dropLast
  | _ => t.text

end Token

def sourceOf (tokens : List Token) : Text :=
  tokens.flatMap Token.source

@[simp] theorem sourceOf_nil : sourceOf [] = [] := rfl

@[simp] theorem sourceOf_cons (t : Token) (ts : List Token) :
    sourceOf (t :: ts) = t.source ++ sourceOf ts := rfl

@[simp] theorem sourceOf_append (ts us : List Token) :
    sourceOf (ts ++ us) = sourceOf ts ++ sourceOf us := by
  simp [sourceOf]

end SoftDelete
