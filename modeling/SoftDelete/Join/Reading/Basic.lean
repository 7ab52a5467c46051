import SoftDelete.Failure
import SoftDelete.Sql.Level

namespace SoftDelete

def reservedWords : List Text :=
  ["SELECT", "FROM", "WHERE", "GROUP", "HAVING", "ORDER", "LIMIT", "PROCEDURE", "INTO", "FOR",
    "LOCK", "UNION", "ON", "USING", "AS", "INNER", "CROSS", "JOIN", "STRAIGHT_JOIN", "LEFT",
    "RIGHT", "NATURAL", "OUTER", "USE", "IGNORE", "FORCE", "AND", "OR", "NOT"].map String.toList

def isReservedWord (word : Text) : Bool :=
  reservedWords.any (Text.sameWord word)

namespace Item

def freeName? (i : Item) : Option Text :=
  match i.kind? with
  | some (.quoted _) => some i.text
  | some .word => if isReservedWord i.text then none else some i.text
  | _ => none

def hasKind (i : Item) (kind : Token.Kind) : Bool :=
  i.kind? == some kind

end Item

namespace Reading

def misfit (what : String) : List Item → Failure
  | [] => .unmatched s!"{what}, found end of table references"
  | i :: _ => .unmatched s!"{what}, found `{String.ofList i.text}`"

def linked {α β : Type} (element : List Item → Except Failure (α × Nat))
    (link? : Item → Option β) : List Item → Except Failure (List (β × α) × Nat)
  | [] => .ok ([], 0)
  | i :: rest =>
      match link? i with
      | none => .ok ([], 0)
      | some link => do
          let (first, n) ← element rest
          let (more, m) ← linked element link? (rest.drop n)
          .ok ((link, first) :: more, 1 + n + m)
termination_by items => items.length
decreasing_by
  simp only [List.length_drop, List.length_cons]
  omega

def mark? (kind : Token.Kind) (i : Item) : Option Unit :=
  if i.hasKind kind then some () else none

def separated {α : Type} (element : List Item → Except Failure (α × Nat))
    (mark : Token.Kind) (items : List Item) : Except Failure (List α × Nat) := do
  let (first, n) ← element items
  let (more, m) ← linked element (mark? mark) (items.drop n)
  .ok (first :: more.map Prod.snd, n + m)

def expect (kind : Token.Kind) (what : String) : List Item → Except Failure (Unit × Nat)
  | [] => .error (misfit what [])
  | i :: rest => if i.hasKind kind then .ok ((), 1) else .error (misfit what (i :: rest))

def name (what : String) : List Item → Except Failure (Text × Nat)
  | [] => .error (misfit what [])
  | i :: rest =>
      match i.freeName? with
      | some text => .ok (text, 1)
      | none => .error (misfit what (i :: rest))

def dotted (first next : String) (items : List Item) : Except Failure (List Text × Nat) := do
  let (head, n) ← name first items
  let (parts, m) ← linked (name next) (mark? .dot) (items.drop n)
  .ok (head :: parts.map Prod.snd, n + m)

end Reading

end SoftDelete
