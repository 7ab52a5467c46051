import SoftDelete.Proofs.Select.Nesting

namespace SoftDelete

structure Visit where
  room : Nat
  depth : Nat
  offset : Nat
  sql : Text

namespace Visit

def run (catalog : Catalog) (options : Options) (v : Visit) : Attempt Text :=
  filterLevel catalog options v.room v.depth v.offset v.sql

def inside (v : Visit) (room : Nat) (front : List Segment) (opening : Token) (inner : List Token)
    (closing : Token) : Visit where
  room := room
  depth := v.depth + 1
  offset := v.offset + Text.byteSize (front.flatMap Segment.source ++ opening.source)
  sql := sourceOf inner ++ closing.gap

end Visit

/-- The run on a level comes to a run on another one after it has noted so much. -/
inductive Visits (catalog : Catalog) (options : Options) : Visit → Notes → Visit → Prop where
  | here (v : Visit) : Visits catalog options v .empty v
  | inside {v w : Visit} {room : Nat} {l : Lexed} {front later : List Segment}
      {opening closing : Token} {inner : List Token} {items : List Item} {notes : Notes}
      (hroom : v.room = room + 1) (hlex : lex v.sql = .ok l)
      (hsegs : (segments l.tokens).1 = front ++ .subselect opening inner closing :: later)
      (hfront : (itemsOf (nestedFilter catalog options v.room v.depth) v.offset front).result =
        .ok items)
      (h : Visits catalog options (v.inside room front opening inner closing) notes w) :
      Visits catalog options v
        ((itemsOf (nestedFilter catalog options v.room v.depth) v.offset front).notes ++ notes) w

section Runs

variable {catalog : Catalog} {options : Options}

theorem itemsOf_error {nested : Nat → Text → Attempt Text} {offset : Nat} {front : List Segment}
    {items : List Item} {opening closing : Token} {inner : List Token} {e : Failure} {notes : Notes}
    (hfront : (itemsOf nested offset front).result = .ok items)
    (hnested : nested (offset + Text.byteSize (front.flatMap Segment.source ++ opening.source))
      (sourceOf inner ++ closing.gap) = ⟨.error e, notes⟩) (later : List Segment) :
    itemsOf nested offset (front ++ .subselect opening inner closing :: later) =
      ⟨.error e, (itemsOf nested offset front).notes ++ notes⟩ := by
  rw [Text.byteSize_append, ← Nat.add_assoc] at hnested
  rw [itemsOf_append, Attempt.bind_of_ok hfront, itemsOf, hnested]
  rfl

theorem Visits.run_eq_error {v w : Visit} {before : Notes} {e : Failure}
    (h : Visits catalog options v before w) (hw : (w.run catalog options).result = .error e) :
    v.run catalog options = ⟨.error e, before ++ (w.run catalog options).notes⟩ := by
  induction h with
  | here v =>
      rw [Notes.empty_append, ← hw]
  | @inside v w room l front later opening closing inner items notes hroom hlex hsegs hfront _ ih =>
      obtain ⟨vroom, depth, offset, sql⟩ := v
      obtain rfl : vroom = room + 1 := hroom
      have hitems := itemsOf_error hfront (ih hw) later
      rw [Visit.run, filterLevel_of_lex hlex, hsegs, hitems, Attempt.bind_of_error rfl,
        Notes.append_assoc]

end Runs

end SoftDelete
