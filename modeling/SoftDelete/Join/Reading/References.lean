import SoftDelete.Join.Reading.Condition
import SoftDelete.Join.References

/-!
Reading table references:

    references := table (join table [ON condition | USING (column, ...)])*
    table      := (name | sub-select) [[AS] alias]
-/

namespace SoftDelete

def Failure.inLeftmost : Failure → Failure
  | .unmatched reason => .unmatched s!"left-most table: {reason}"
  | e => e

namespace Reading

def tableOrSubselect : List Item → Except Failure (Option Text × Nat)
  | .subselect .. :: _ => .ok (none, 1)
  | items => do
      let (parts, n) ← dotted "expected a table name" "expected a name after `.`" items
      .ok (some (Text.joined "." parts), n)

def aliasName? : List Item → Except Failure (Option Text × Nat)
  | [] => .ok (none, 0)
  | i :: rest =>
      if i.spells "AS" then do
        let (text, n) ← name "expected an alias after AS" rest
        .ok (some text, n + 1)
      else match i.freeName? with
        | some text => .ok (some text, 1)
        | none => .ok (none, 0)

def reference (start : Nat) (items : List Item) : Except Failure (Reference × Nat) := do
  let (name, n) ← tableOrSubselect items
  let (aliasName, m) ← aliasName? (items.drop n)
  .ok (⟨name, aliasName, start, start + (n + m)⟩, n + m)

def joinKeywords? : List Item → Option (Join.Kind × Nat)
  | [] => none
  | i :: rest =>
      if i.hasKind .comma then some (.comma, 1)
      else (Join.Kind.forms.find? fun form => startsWithWords form.2 (i :: rest)).map
        fun form => (form.1, form.2.length)

def clause (after : Option Item) (room start : Nat) :
    List Item → Except Failure (Option Join.Clause × Nat)
  | [] => .ok (none, 0)
  | i :: rest =>
      if i.spells "ON" then do
        let (tree, n) ← condition after room rest
        .ok (some (.on tree ⟨start + 1, start + (1 + n)⟩), 1 + n)
      else if i.spells "USING" then do
        let (_, k) ← expect .lparen "expected `(` after USING" rest
        let (columns, n) ← separated (name "expected a column in USING") .comma (rest.drop k)
        let (_, m) ← expect .rparen "expected `)` closing USING" (rest.drop (k + n))
        .ok (some (.using columns), 1 + (k + n + m))
      else .ok (none, 0)

def join (after : Option Item) (room start : Nat) (items : List Item) :
    Except Failure (Join × Nat) :=
  match joinKeywords? items with
  | none => .error (misfit "expected a join" items)
  | some (kind, k) => do
      let (table, n) ← reference (start + k) (items.drop k)
      let (own, m) ← clause after room (start + (k + n)) (items.drop (k + n))
      let taken := k + n + m
      .ok (⟨kind, table, own, ⟨start, start + k⟩, ⟨start, start + taken⟩⟩, taken)

def joins (after : Option Item) (room limit : Nat) (left start : Nat) :
    List Item → Except Failure (List Join)
  | [] => .ok []
  | i :: rest =>
      match left with
      | 0 => .error (.tooManyJoins limit)
      | left + 1 => do
          let (first, n) ← join after room start (i :: rest)
          let more ← joins after room limit left (start + n) ((i :: rest).drop n)
          .ok (first :: more)

end Reading

def References.parse (room maxJoins start : Nat) (items : List Item) (after : Option Item) :
    Except Failure References := do
  let (first, n) ← (Reading.reference start items).mapError Failure.inLeftmost
  let joins ← Reading.joins after room maxJoins maxJoins (start + n) (items.drop n)
  .ok ⟨first, joins⟩

end SoftDelete
