import SoftDelete.Join.Filter
import SoftDelete.Join.Reading.References

namespace SoftDelete

structure Options where
  column : Text
  maxDepth : Nat
  maxJoins : Nat
  verifyOutput : Bool
  deriving DecidableEq, Repr

def clauseHeads : List (List String) :=
  [["GROUP", "BY"], ["HAVING"], ["ORDER", "BY"], ["LIMIT"], ["PROCEDURE"], ["INTO"],
    ["FOR", "UPDATE"], ["FOR", "SHARE"], ["LOCK", "IN", "SHARE", "MODE"]]

def opensClause (items : List Item) : Bool :=
  items.head?.any (Item.hasKind · .semicolon) || clauseHeads.any (startsWithWords · items)

def endsReferences (items : List Item) : Bool :=
  startsWithWords ["WHERE"] items || opensClause items

structure LevelEdit where
  edits : List Edit
  constrained : List Text
  deriving Repr

/-- Adds `condition` behind the table references, which end in front of item `stop`; `after` is what
follows them in their body. -/
def whereEdits (l : Level) (stop : Nat) (after : List Item) (condition : Text) : List Edit :=
  if startsWithWords ["WHERE"] after then
    let own := (breakAt opensClause 0 after.tail).1
    if own.isEmpty then [.insert (l.stopOf (stop + 1)) (' ' :: condition)]
    else
      [.insert (l.startOf (stop + 1)) ['('],
        .insert (l.stopOf (stop + 1 + own.length)) (") AND ".toList ++ condition)]
  else [.insert (l.stopOf stop) (" WHERE ".toList ++ condition)]

def bodyEdit (catalog : Catalog) (options : Options) (l : Level) (start : Nat)
    (body : List Item) : Except Failure LevelEdit :=
  let (front, rest) := breakAt (startsWithWords ["FROM"]) 0 body
  let (items, after) := breakAt endsReferences 0 rest.tail
  if items.any (Item.namesTable catalog) then do
    let first := start + front.length + 1
    let r ← References.parse Reading.maxNesting options.maxJoins first items after.head?
    let plan := r.plan catalog
    let edits ← r.edits l options.column plan
    let added := plan.carried.toList.flatMap fun target =>
      whereEdits l (first + items.length) after (filterCondition options.column target)
    .ok ⟨edits ++ added, plan.constrained⟩
  else .ok ⟨[], []⟩

def bodies (items : List Item) : List (List Item) :=
  match _h : breakAt (startsWithWords ["UNION"]) 0 items with
  | (body, []) => [body]
  | (body, _ :: rest) => body :: bodies rest
termination_by items.length
decreasing_by
  have := congrArg List.length (breakAt_append (startsWithWords ["UNION"]) 0 items)
  simp only [_h, List.length_append, List.length_cons] at this
  omega

def bodyEdits (catalog : Catalog) (options : Options) (l : Level) (start : Nat) :
    List (List Item) → Except Failure LevelEdit
  | [] => .ok ⟨[], []⟩
  | body :: later => do
      let first ← bodyEdit catalog options l start body
      let more ← bodyEdits catalog options l (start + body.length + 1) later
      .ok ⟨first.edits ++ more.edits, first.constrained ++ more.constrained⟩

def Level.filterEdit (catalog : Catalog) (options : Options) (l : Level) :
    Except Failure LevelEdit :=
  bodyEdits catalog options l 0 (bodies l.items)

end SoftDelete
