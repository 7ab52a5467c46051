import SoftDelete.Catalog

namespace SoftDelete

inductive Item where
  | token (t : Token)
  | subselect (gap text body : Text)
  deriving Repr

namespace Item

def gap : Item → Text
  | .token t => t.gap
  | .subselect gap _ _ => gap

def text : Item → Text
  | .token t => t.text
  | .subselect _ text _ => text

def source (i : Item) : Text :=
  i.gap ++ i.text

def output : Item → Text
  | .token t => t.text
  | .subselect _ _ body => '(' :: (body ++ [')'])

def kind? : Item → Option Token.Kind
  | .token t => some t.kind
  | .subselect .. => none

def spells (word : String) : Item → Bool
  | .token t => t.spells word
  | .subselect .. => false

def isSubselect : Item → Bool
  | .token _ => false
  | .subselect .. => true

def namesTable (catalog : Catalog) : Item → Bool
  | .token t => t.canName && catalog.contains t.text
  | .subselect .. => false

end Item

def startsWithWords : List String → List Item → Bool
  | [], _ => true
  | _ :: _, [] => false
  | word :: words, i :: items => i.spells word && startsWithWords words items

/-- The depth of parentheses behind the item, from the depth in front of it. A closing one that
closes nothing is passed over. -/
def Item.depthAfter (i : Item) (depth : Nat) : Nat :=
  match i.kind? with
  | some .lparen => depth + 1
  | some .rparen => depth - 1
  | _ => depth

/-- The depth of each item, where a closing parenthesis counts as outside already. -/
def depthsFrom (depth : Nat) : List Item → List Nat
  | [] => []
  | i :: items => min depth (i.depthAfter depth) :: depthsFrom (i.depthAfter depth) items

theorem depthsFrom_length (depth : Nat) (items : List Item) :
    (depthsFrom depth items).length = items.length := by
  induction items generalizing depth with
  | nil => rfl
  | cons i items ih => simp [depthsFrom, ih]

def breakAt (stops : List Item → Bool) (depth : Nat) : List Item → List Item × List Item
  | [] => ([], [])
  | i :: items =>
      if depth = 0 ∧ stops (i :: items) then ([], i :: items)
      else
        let (front, rest) := breakAt stops (i.depthAfter depth) items
        (i :: front, rest)

theorem breakAt_append (stops : List Item → Bool) (depth : Nat) (items : List Item) :
    (breakAt stops depth items).1 ++ (breakAt stops depth items).2 = items := by
  induction items generalizing depth with
  | nil => rfl
  | cons i items ih =>
      simp only [breakAt]
      split
      · rfl
      · simp [ih]

def enclosed? {α : Type} (kind? : α → Option Token.Kind) (depth : Nat) :
    List α → Option (List α × α × List α)
  | [] => none
  | x :: xs =>
      let further (depth : Nat) := (enclosed? kind? depth xs).map fun (inner, close, rest) =>
        (x :: inner, close, rest)
      match kind? x, depth with
      | some .lparen, _ => further (depth + 1)
      | some .rparen, 0 => some ([], x, xs)
      | some .rparen, d + 1 => further d
      | _, _ => further depth

theorem append_of_enclosed? {α : Type} {kind? : α → Option Token.Kind} {depth : Nat}
    {xs inner rest : List α} {close : α} (h : enclosed? kind? depth xs = some (inner, close, rest)) :
    xs = inner ++ close :: rest := by
  induction xs generalizing depth inner with
  | nil => simp [enclosed?] at h
  | cons x xs ih =>
      simp only [enclosed?] at h
      split at h
      · simp only [Option.map_eq_some_iff, Prod.mk.injEq] at h
        obtain ⟨⟨a, b, c⟩, hm, rfl, rfl, rfl⟩ := h
        simp [ih hm]
      · simp only [Option.some.injEq, Prod.mk.injEq] at h
        obtain ⟨rfl, rfl, rfl⟩ := h
        rfl
      · simp only [Option.map_eq_some_iff, Prod.mk.injEq] at h
        obtain ⟨⟨a, b, c⟩, hm, rfl, rfl, rfl⟩ := h
        simp [ih hm]
      · simp only [Option.map_eq_some_iff, Prod.mk.injEq] at h
        obtain ⟨⟨a, b, c⟩, hm, rfl, rfl, rfl⟩ := h
        simp [ih hm]

def outputOf : List Item → Text
  | [] => []
  | i :: items => i.output ++ items.flatMap fun j => j.gap ++ j.output

structure Level where
  items : List Item
  tail : Text
  deriving Repr

namespace Level

def source (l : Level) : Text :=
  l.items.flatMap Item.source ++ l.tail

def itemsIn (l : Level) (start stop : Nat) : List Item :=
  (l.items.drop start).take (stop - start)

def upTo (l : Level) (n : Nat) : Text :=
  (l.items.take n).flatMap Item.source

def before (l : Level) (n : Nat) : Text :=
  l.upTo n ++ (l.items[n]?.map Item.gap).getD []

def stopOf (l : Level) (n : Nat) : Nat :=
  Text.byteSize (l.upTo n)

def startOf (l : Level) (n : Nat) : Nat :=
  Text.byteSize (l.before n)

def depths (l : Level) : List Nat :=
  depthsFrom 0 l.items

def namesTable (catalog : Catalog) (l : Level) : Bool :=
  l.items.any (Item.namesTable catalog)

end Level

end SoftDelete
