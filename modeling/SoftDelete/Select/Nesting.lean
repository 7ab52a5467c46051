import SoftDelete.Select.Attempt
import SoftDelete.Select.Body
import SoftDelete.Sql.Lexed

namespace SoftDelete

inductive Segment where
  | token (t : Token)
  | subselect (opening : Token) (inner : List Token) (closing : Token)
  deriving Repr

namespace Segment

def tokens : Segment → List Token
  | .token t => [t]
  | .subselect opening inner closing => opening :: (inner ++ [closing])

def source (s : Segment) : Text :=
  sourceOf s.tokens

end Segment

def opensSubselect (t : Token) (rest : List Token) : Bool :=
  t.kind == .lparen && rest.head?.any (·.spells "SELECT")

/-- Cuts out the outermost sub-selects. The second list is empty unless a sub-select is never
closed; then it holds the tokens from that sub-select on. -/
def segments : List Token → List Segment × List Token
  | [] => ([], [])
  | t :: ts =>
      if opensSubselect t ts then
        match _h : enclosed? (fun u => some u.kind) 0 ts with
        | none => ([], t :: ts)
        | some (inner, closing, rest) =>
            let (later, unclosed) := segments rest
            (.subselect t inner closing :: later, unclosed)
      else
        let (later, unclosed) := segments ts
        (.token t :: later, unclosed)
termination_by ts => ts.length
decreasing_by
  · have := congrArg List.length (append_of_enclosed? _h)
    simp only [List.length_append, List.length_cons] at this ⊢
    omega
  · simp

theorem segments_append (ts : List Token) :
    (segments ts).1.flatMap Segment.tokens ++ (segments ts).2 = ts := by
  fun_induction segments ts with
  | case1 => rfl
  | case2 => simp
  | case3 t ts _ inner closing rest h later unclosed hs ih =>
      rw [hs] at ih
      simp [Segment.tokens, ih, append_of_enclosed? h]
  | case4 t ts _ later unclosed hs ih =>
      rw [hs] at ih
      simp [Segment.tokens, ih]

def itemsOf (nested : Nat → Text → Attempt Text) (offset : Nat) :
    List Segment → Attempt (List Item)
  | [] => pure []
  | .token t :: later => do
      let items ← itemsOf nested (offset + Text.byteSize t.source) later
      pure (.token t :: items)
  | .subselect opening inner closing :: later => do
      let s := Segment.subselect opening inner closing
      let body ← nested (offset + Text.byteSize opening.source) (sourceOf inner ++ closing.gap)
      let items ← itemsOf nested (offset + Text.byteSize s.source) later
      let text := opening.text ++ (sourceOf inner ++ closing.source)
      pure (.subselect opening.gap text body :: items)

/-- Filters the statement `sql` that `depth` sub-selects surround, at byte `offset` of the whole.
Sub-selects are filtered down to `room` levels below it and left as they are from there on. The
clauses of a level in which a sub-select is never closed are unknown, so nothing but its complete
sub-selects is filtered. -/
def filterLevel (catalog : Catalog) (options : Options) (room depth offset : Nat) (sql : Text) :
    Attempt Text := do
  let nested : Nat → Text → Attempt Text :=
    match room with
    | 0 => fun _ body => do
        Attempt.note (.nestedTooDeep options.maxDepth) (depth + 1)
        pure body
    | room + 1 => filterLevel catalog options room (depth + 1)
  let lexed ← Attempt.ofExcept (Lexed.ofText sql)
  let (closed, unclosed) := segments lexed.tokens
  let items ← itemsOf nested offset closed
  match unclosed with
  | t :: _ =>
      let start := offset + Text.byteSize (closed.flatMap Segment.source ++ t.gap)
      Attempt.note (.unclosedSubselect start) depth
      pure (Level.outputWith ⟨items, sourceOf unclosed ++ lexed.tail⟩ [])
  | [] =>
      let level : Level := ⟨items, lexed.tail⟩
      if level.namesTable catalog then do
        let edit ← Attempt.ofExcept (level.filterEdit catalog options)
        Attempt.constrain edit.constrained
        pure (level.outputWith edit.edits)
      else pure (level.outputWith [])

end SoftDelete
