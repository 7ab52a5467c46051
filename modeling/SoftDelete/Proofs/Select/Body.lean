import SoftDelete.Proofs.Join.Layout
import SoftDelete.Select.Body

namespace SoftDelete

theorem bodies_eq (items : List Item) :
    bodies items = match breakAt (startsWithWords ["UNION"]) 0 items with
      | (body, []) => [body]
      | (body, _ :: rest) => body :: bodies rest := by
  rw [bodies]
  split <;> simp_all

structure BodyParts (body front : List Item) (f : Item) (items after : List Item) : Prop where
  body_eq : body = front ++ f :: (items ++ after)
  front_eq : breakAt (startsWithWords ["FROM"]) 0 body = (front, f :: (items ++ after))
  spells_from : f.spells "FROM" = true
  items_eq : breakAt endsReferences 0 (items ++ after) = (items, after)

theorem exists_parts (body : List Item) :
    breakAt (startsWithWords ["FROM"]) 0 body = (body, []) ∨
      ∃ front f items after, BodyParts body front f items after := by
  obtain ⟨⟨front, rest⟩, hfront⟩ : ∃ cut, breakAt (startsWithWords ["FROM"]) 0 body = cut := ⟨_, rfl⟩
  cases rest with
  | nil =>
      obtain rfl := eq_of_breakAt hfront
      exact .inl hfront
  | cons f tail =>
      obtain ⟨⟨items, after⟩, hitems⟩ : ∃ cut, breakAt endsReferences 0 tail = cut := ⟨_, rfl⟩
      obtain rfl := eq_append_of_breakAt hitems
      exact .inr ⟨front, f, items, after, eq_append_of_breakAt hfront, hfront,
        spells_of_breakAt hfront, hitems⟩

section Edit

variable (catalog : Catalog) (options : Options) (l : Level) (start : Nat)

theorem bodyEdit_of_noFrom {body : List Item}
    (h : breakAt (startsWithWords ["FROM"]) 0 body = (body, [])) :
    bodyEdit catalog options l start body = .ok ⟨[], []⟩ := by
  simp only [bodyEdit, h]
  rfl

theorem bodyEdit_of_parts {body front items after : List Item} {f : Item}
    (h : BodyParts body front f items after) :
    bodyEdit catalog options l start body =
      if items.any (Item.namesTable catalog) then do
        let r ← References.parse Reading.maxNesting options.maxJoins (start + front.length + 1) items
          after.head?
        let edits ← r.edits l options.column (r.plan catalog)
        .ok ⟨edits ++ (r.plan catalog).carried.toList.flatMap fun target =>
            whereEdits l (start + front.length + 1 + items.length) after
              (filterCondition options.column target),
          (r.plan catalog).constrained⟩
      else .ok ⟨[], []⟩ := by
  simp only [bodyEdit, h.front_eq, List.tail_cons, h.items_eq]

end Edit

inductive BodyEnds (catalog : Catalog) (options : Options) (l : Level) (start : Nat)
    (body : List Item) : LevelEdit → Prop where
  | noFrom (h : breakAt (startsWithWords ["FROM"]) 0 body = (body, [])) :
      BodyEnds catalog options l start body ⟨[], []⟩
  | unnamed {front items after : List Item} {f : Item} (hparts : BodyParts body front f items after)
      (hnames : items.any (Item.namesTable catalog) = false) :
      BodyEnds catalog options l start body ⟨[], []⟩
  | filtered {front items after : List Item} {f : Item} {r : References} {edits : List Edit}
      (hparts : BodyParts body front f items after)
      (hparse : References.parse Reading.maxNesting options.maxJoins (start + front.length + 1)
        items after.head? = .ok r)
      (hedits : r.edits l options.column (r.plan catalog) = .ok edits) :
      BodyEnds catalog options l start body
        ⟨edits ++ (r.plan catalog).carried.toList.flatMap fun target =>
            whereEdits l (start + front.length + 1 + items.length) after
              (filterCondition options.column target),
          (r.plan catalog).constrained⟩

theorem bodyEdit_ends {catalog : Catalog} {options : Options} {l : Level} {start : Nat}
    {body : List Item} {edit : LevelEdit} (h : bodyEdit catalog options l start body = .ok edit) :
    BodyEnds catalog options l start body edit := by
  rcases exists_parts body with hnone | ⟨front, f, items, after, hparts⟩
  · rw [bodyEdit_of_noFrom catalog options l start hnone] at h
    cases h
    exact .noFrom hnone
  · rw [bodyEdit_of_parts catalog options l start hparts] at h
    split at h
    · obtain ⟨r, hparse, h⟩ := exists_of_bind_ok h
      obtain ⟨edits, hedits, h⟩ := exists_of_bind_ok h
      cases h
      exact .filtered hparts hparse hedits
    · rename_i hnames
      cases h
      exact .unnamed hparts (by simpa using hnames)

end SoftDelete
