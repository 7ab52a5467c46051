import SoftDelete.Sql.Lexed

namespace SoftDelete

structure Phrase where
  rest? : List Token → Option (List Token)

namespace Phrase

def nothing : Phrase :=
  ⟨some⟩

def never : Phrase :=
  ⟨fun _ => none⟩

def one (accepts : Token → Bool) : Phrase where
  rest?
    | [] => none
    | t :: ts => if accepts t then some ts else none

def word (text : String) : Phrase :=
  one (·.spells text)

def mark (kind : Token.Kind) : Phrase :=
  one (·.kind == kind)

instance : Append Phrase where
  append a b := ⟨fun ts => (a.rest? ts).bind b.rest?⟩

instance : OrElse Phrase where
  orElse a b := ⟨fun ts => (a.rest? ts).or ((b ()).rest? ts)⟩

def words (texts : List String) : Phrase :=
  texts.foldr (word · ++ ·) nothing

def anyOf (phrases : List Phrase) : Phrase :=
  phrases.foldr (· <|> ·) never

def anyWord (texts : List String) : Phrase :=
  anyOf (texts.map word)

def optional (a : Phrase) : Phrase :=
  a <|> nothing

def without (a : Phrase) : Phrase :=
  ⟨fun ts => if (a.rest? ts).isSome then none else some ts⟩

def before (a : Phrase) : Phrase :=
  without (without a)

def many (a : Phrase) : Phrase where
  rest? := go
where
  go (ts : List Token) : Option (List Token) :=
    match a.rest? ts with
    | none => some ts
    | some rest => if rest.length < ts.length then go rest else some ts
  termination_by ts.length

def several (a : Phrase) : Phrase :=
  a ++ many a

def listed (a : Phrase) : Phrase :=
  a ++ many (mark .comma ++ a)

def enclosed (a : Phrase) : Phrase :=
  mark .lparen ++ a ++ mark .rparen

end Phrase

end SoftDelete
