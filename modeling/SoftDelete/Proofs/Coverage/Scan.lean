import SoftDelete.Select.Nesting

namespace SoftDelete

def Item.opensTable (i : Item) : Bool :=
  i.hasKind .comma || i.spells "JOIN" || i.spells "STRAIGHT_JOIN"

def effectiveName (i : Item) (rest : List Item) : Text :=
  let behind := if rest.head?.any (Item.spells "AS") then rest.tail else rest
  (behind.head?.bind Item.freeName?).getD i.text

def mentioned? (catalog : Catalog) (i : Item) (rest : List Item) : Option Text :=
  if i.namesTable catalog && !rest.head?.any (Item.hasKind · .dot) then some (effectiveName i rest)
  else none

inductive Place where
  | select
  | table
  | joined
  | past
  deriving DecidableEq, Repr

structure Scan where
  place : Place
  point : Bool
  depth : Nat
  base : Nat
  deriving DecidableEq, Repr

namespace Scan

def start : Scan :=
  ⟨.select, false, 0, 0⟩

def opensGroup (s : Scan) (i : Item) : Bool :=
  s.place == .table && i.hasKind .lparen

def placeInBody (s : Scan) (i : Item) (rest : List Item) : Place :=
  match s.place with
  | .select => .select
  | .past => .past
  | .table | .joined =>
      if s.depth = 0 ∧ endsReferences (i :: rest) then .past
      else if (s.depth = s.base ∧ i.opensTable) ∨ s.opensGroup i then .table
      else .joined

/-- With `every` each `FROM` of a body is followed, else the first. A keyword behind a point may be
the name of a column, so the scan gives up the body at such a `FROM`, and at a `UNION` of that kind
behind the `FROM`. -/
def placeAfter (every : Bool) (s : Scan) (i : Item) (rest : List Item) : Place :=
  if s.depth = 0 ∧ i.spells "UNION" then
    if s.point ∧ s.place ≠ .select then .past else .select
  else if s.depth = 0 ∧ i.spells "FROM" ∧ (every ∨ s.place = .select) then
    if s.point then .past else .table
  else s.placeInBody i rest

def next (every : Bool) (s : Scan) (i : Item) (rest : List Item) : Scan where
  place := s.placeAfter every i rest
  point := i.hasKind .dot
  depth := i.depthAfter s.depth
  base := if s.opensGroup i then s.depth + 1 else min s.base (i.depthAfter s.depth)

def demand (catalog : Catalog) (every : Bool) (s : Scan) (i : Item) (rest : List Item) :
    List Text :=
  if s.place = .table ∧ s.placeAfter every i rest = .joined then (mentioned? catalog i rest).toList
  else []

def demands (catalog : Catalog) (every : Bool) (s : Scan) : List Item → List Text
  | [] => []
  | i :: rest =>
      s.demand catalog every i rest ++ demands catalog every (s.next every i rest) rest

def after (every : Bool) (s : Scan) : List Item → Scan
  | [] => s
  | i :: rest => after every (s.next every i rest) rest

end Scan

def Segment.item : Segment → Item
  | .token t => .token t
  | .subselect opening inner closing =>
      .subselect opening.gap (opening.text ++ (sourceOf inner ++ closing.source)) []

def Segment.inside? : Segment → Option Text
  | .token _ => none
  | .subselect _ inner closing => some (sourceOf inner ++ closing.gap)

def demandedWithin (catalog : Catalog) (every : Bool) : Nat → Text → List Text
  | 0, _ => []
  | n + 1, sql =>
      match lex sql with
      | .error _ => []
      | .ok l =>
          let (closed, unclosed) := segments l.tokens
          (closed.filterMap Segment.inside?).flatMap (demandedWithin catalog every n) ++
            Scan.demands catalog every .start
              (closed.map Segment.item ++ unclosed.map Item.token)

def followingWords : List String :=
  ["AS", "BY", "UPDATE", "SHARE", "IN", "MODE"]

def Item.IsBar (i : Item) : Prop :=
  i.freeName? = none ∧ i.hasKind .dot = false ∧ ∀ word ∈ followingWords, i.spells word = false

def Barred (items : List Item) : Prop :=
  ∀ i ∈ items.head?, i.IsBar

namespace Barred

variable {front rest : List Item}

theorem nil : Barred [] := nofun

theorem cons {i : Item} (h : i.IsBar) (rest : List Item) : Barred (i :: rest) := by
  intro j hj
  cases hj
  exact h

theorem startsWithWords_eq_false (h : Barred rest) {words : List String} (hne : words ≠ [])
    (hwords : ∀ word ∈ words, word ∈ followingWords) : startsWithWords words rest = false := by
  obtain ⟨word, words, rfl⟩ := List.exists_cons_of_ne_nil hne
  cases rest with
  | nil => rfl
  | cons i rest =>
      have hi : i.spells word = false := (h i rfl).2.2 word (hwords word (by simp))
      simp [startsWithWords, hi]

theorem startsWithWords_append (h : Barred rest) {words : List String}
    (hwords : ∀ word ∈ words, word ∈ followingWords) (front : List Item) :
    startsWithWords words (front ++ rest) = startsWithWords words front := by
  induction front generalizing words with
  | nil =>
      cases words with
      | nil => rfl
      | cons word words => exact h.startsWithWords_eq_false (by simp) hwords
  | cons i front ih =>
      cases words with
      | nil => rfl
      | cons word words =>
          have hlater := ih fun w hw => hwords w (List.mem_cons_of_mem word hw)
          simp [startsWithWords, hlater]

theorem startsWithWords_cons_append (h : Barred rest) {words : List String}
    (hwords : ∀ word ∈ words.tail, word ∈ followingWords) (i : Item) (front : List Item) :
    startsWithWords words (i :: (front ++ rest)) = startsWithWords words (i :: front) := by
  cases words with
  | nil => rfl
  | cons word words =>
      have hlater : ∀ w ∈ words, w ∈ followingWords := hwords
      rw [startsWithWords, startsWithWords, h.startsWithWords_append hlater]

theorem opensClause_append (h : Barred rest) (i : Item) (front : List Item) :
    opensClause (i :: (front ++ rest)) = opensClause (i :: front) := by
  have hheads : ∀ words ∈ clauseHeads, ∀ word ∈ words.tail, word ∈ followingWords := by decide
  have hclause : clauseHeads.any (startsWithWords · (i :: (front ++ rest))) =
      clauseHeads.any (startsWithWords · (i :: front)) := by
    rw [Bool.eq_iff_iff]
    simp only [List.any_eq_true]
    refine exists_congr fun words => and_congr_right fun hmem => ?_
    rw [h.startsWithWords_cons_append (hheads words hmem)]
  rw [opensClause, opensClause, hclause]
  rfl

theorem endsReferences_append (h : Barred rest) (i : Item) (front : List Item) :
    endsReferences (i :: (front ++ rest)) = endsReferences (i :: front) := by
  have hwhere : startsWithWords ["WHERE"] (i :: (front ++ rest)) =
      startsWithWords ["WHERE"] (i :: front) := h.startsWithWords_cons_append (by simp) i front
  rw [endsReferences, endsReferences, hwhere, h.opensClause_append]

theorem effectiveName_append (h : Barred rest) (i : Item) (front : List Item) :
    effectiveName i (front ++ rest) = effectiveName i front := by
  have hname : ∀ items : List Item, (items ++ rest).head?.bind Item.freeName? =
      items.head?.bind Item.freeName? := by
    intro items
    cases items with
    | cons j items => rfl
    | nil =>
        cases rest with
        | nil => rfl
        | cons k rest => exact (h k rfl).1
  cases front with
  | cons j front =>
      cases hj : j.spells "AS" with
      | true => simpa [effectiveName, hj] using congrArg (Option.getD · i.text) (hname front)
      | false => simp [effectiveName, hj]
  | nil =>
      cases rest with
      | nil => rfl
      | cons k rest =>
          have hk := h k rfl
          have has : k.spells "AS" = false := hk.2.2 "AS" (by simp [followingWords])
          simp [effectiveName, has, hk.1]

theorem dot_append (h : Barred rest) (front : List Item) :
    (front ++ rest).head?.any (Item.hasKind · .dot) = front.head?.any (Item.hasKind · .dot) := by
  cases front with
  | cons j front => rfl
  | nil =>
      cases rest with
      | nil => rfl
      | cons k rest => exact (h k rfl).2.1

theorem mentioned?_append (h : Barred rest) (catalog : Catalog) (i : Item) (front : List Item) :
    mentioned? catalog i (front ++ rest) = mentioned? catalog i front := by
  rw [mentioned?, mentioned?, h.dot_append, h.effectiveName_append]

end Barred

namespace Scan

variable {rest : List Item}

theorem placeAfter_append (h : Barred rest) (every : Bool) (s : Scan) (i : Item)
    (front : List Item) : s.placeAfter every i (front ++ rest) = s.placeAfter every i front := by
  rw [placeAfter, placeAfter, placeInBody, placeInBody, h.endsReferences_append]

theorem demands_append (h : Barred rest) (catalog : Catalog) (every : Bool) (s : Scan)
    (front : List Item) :
    s.demands catalog every (front ++ rest) =
      s.demands catalog every front ++ (s.after every front).demands catalog every rest := by
  induction front generalizing s with
  | nil => rfl
  | cons i front ih =>
      have hplace := placeAfter_append h every s i front
      have hnext : s.next every i (front ++ rest) = s.next every i front := by
        rw [next, next, hplace]
      have hdemand : s.demand catalog every i (front ++ rest) = s.demand catalog every i front := by
        rw [demand, demand, hplace, h.mentioned?_append]
      rw [List.cons_append, demands, demands, after, hnext, hdemand, ih, List.append_assoc]

end Scan

end SoftDelete
