import SoftDelete.Sql.Level

namespace SoftDelete

structure Edit where
  start : Nat
  stop : Nat
  text : Text
  deriving DecidableEq, Repr

namespace Edit

def insert (offset : Nat) (text : Text) : Edit :=
  ⟨offset, offset, text⟩

def le (a b : Edit) : Bool :=
  a.start < b.start || (a.start == b.start && a.stop ≤ b.stop)

end Edit

structure Placed where
  start : Nat
  stop : Nat
  body : Text

def placedFrom (offset : Nat) : List Item → List Placed
  | [] => []
  | i :: items =>
      let start := offset + Text.byteSize i.gap
      let stop := start + Text.byteSize i.text
      match i with
      | .token _ => placedFrom stop items
      | .subselect _ _ body => ⟨start, stop, body⟩ :: placedFrom stop items

def outputWithin (source : Text) (stop : Nat) (start : Nat) : List Placed → Text
  | [] => Text.slice source start stop
  | p :: rest =>
      if start ≤ p.start ∧ p.stop ≤ stop then
        Text.slice source start p.start ++ '(' :: (p.body ++ ')' ::
          outputWithin source stop p.stop rest)
      else outputWithin source stop start rest

namespace Level

def outputBetween (l : Level) (start stop : Nat) : Text :=
  outputWithin l.source stop start (placedFrom 0 l.items)

def outputFrom (l : Level) (start : Nat) : List Edit → Text
  | [] => l.outputBetween start (Text.byteSize l.source)
  | e :: edits => l.outputBetween start e.start ++ (e.text ++ l.outputFrom e.stop edits)

def outputWith (l : Level) (edits : List Edit) : Text :=
  l.outputFrom 0 (edits.mergeSort Edit.le)

end Level

end SoftDelete
