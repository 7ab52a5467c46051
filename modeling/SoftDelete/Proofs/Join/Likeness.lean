import Mathlib.Data.List.Forall2
import SoftDelete.Join.Carry
import SoftDelete.Join.Reading.References
import SoftDelete.Proofs.Sql.Parentheses

namespace SoftDelete

inductive AgreeUpTo {α β : Type} (E : Failure → Failure → Prop) (R : α → β → Prop) :
    Except Failure α → Except Failure β → Prop where
  | ok {a : α} {b : β} (h : R a b) : AgreeUpTo E R (.ok a) (.ok b)
  | error {e e' : Failure} (h : E e e') : AgreeUpTo E R (.error e) (.error e')

namespace AgreeUpTo

variable {α β γ δ : Type} {E : Failure → Failure → Prop} {R : α → β → Prop} {S : γ → δ → Prop}

theorem bind {x : Except Failure α} {y : Except Failure β} {u : α → Except Failure γ}
    {v : β → Except Failure δ} (h : AgreeUpTo E R x y)
    (hnext : ∀ a b, R a b → AgreeUpTo E S (u a) (v b)) : AgreeUpTo E S (x >>= u) (y >>= v) := by
  cases h with
  | ok h => exact hnext _ _ h
  | error h => exact .error h

theorem mono {T : α → β → Prop} {x : Except Failure α} {y : Except Failure β}
    (h : AgreeUpTo E R x y) (hT : ∀ a b, R a b → T a b) : AgreeUpTo E T x y := by
  cases h with
  | ok h => exact .ok (hT _ _ h)
  | error h => exact .error h

theorem remember {x : Except Failure α} {y : Except Failure β} (h : AgreeUpTo E R x y) :
    AgreeUpTo E (fun a b => R a b ∧ x = .ok a ∧ y = .ok b) x y := by
  cases h with
  | ok h => exact .ok ⟨h, rfl, rfl⟩
  | error h => exact .error h

theorem mapError {x : Except Failure α} {y : Except Failure β} (h : AgreeUpTo E R x y)
    {w : Failure → Failure} (hw : ∀ {e e'}, E e e' → E (w e) (w e')) :
    AgreeUpTo E R (x.mapError w) (y.mapError w) := by
  cases h with
  | ok h => exact .ok h
  | error h => exact .error (hw h)

end AgreeUpTo

namespace Item

inductive Looks : Item → Item → Prop where
  | token {gap gap' text : Text} {kind : Token.Kind} :
      Looks (.token ⟨gap, kind, text⟩) (.token ⟨gap', kind, text⟩)
  | subselect {gap gap' text text' body body' : Text} :
      Looks (.subselect gap text body) (.subselect gap' text' body')

namespace Looks

variable {i j : Item}

theorem kind? (h : i.Looks j) : i.kind? = j.kind? := by
  cases h <;> rfl

theorem text (h : i.Looks j) : i.kind? = none ∨ i.text = j.text := by
  cases h with
  | token => exact .inr rfl
  | subselect => exact .inl rfl

theorem spells (h : i.Looks j) (word : String) : i.spells word = j.spells word := by
  cases h <;> rfl

theorem hasKind (h : i.Looks j) (kind : Token.Kind) : i.hasKind kind = j.hasKind kind := by
  cases h <;> rfl

theorem freeName? (h : i.Looks j) : i.freeName? = j.freeName? := by
  cases h <;> rfl

theorem depthAfter (h : i.Looks j) (depth : Nat) : i.depthAfter depth = j.depthAfter depth := by
  cases h <;> rfl

theorem namesTable (h : i.Looks j) (catalog : Catalog) :
    i.namesTable catalog = j.namesTable catalog := by
  cases h <;> rfl

theorem operator? (h : i.Looks j) :
    (if i.hasKind .operator then Comparator.ofOperator? i.text else none) =
      if j.hasKind .operator then Comparator.ofOperator? j.text else none := by
  cases h <;> rfl

theorem connective? (h : i.Looks j) : Connective.ofItem? i = Connective.ofItem? j := by
  cases h <;> rfl

end Looks

end Item

inductive Join.Clause.Alike : Option Join.Clause → Option Join.Clause → Prop where
  | none : Alike none none
  | on {c d : Condition} {items : ItemRange} : Alike (some (.on c items)) (some (.on d items))
  | using {columns : List Text} : Alike (some (.using columns)) (some (.using columns))

structure Join.Alike (j k : Join) : Prop where
  kind : j.kind = k.kind
  table : j.table = k.table
  clause : Join.Clause.Alike j.clause k.clause
  keywordItems : j.keywordItems = k.keywordItems
  items : j.items = k.items

structure References.Alike (r s : References) : Prop where
  first : r.first = s.first
  joins : List.Forall₂ Join.Alike r.joins s.joins

theorem References.Alike.plan_eq {r s : References} (h : r.Alike s) (catalog : Catalog) :
    r.plan catalog = s.plan catalog := by
  obtain ⟨first, js⟩ := r
  obtain ⟨_, ks⟩ := s
  obtain ⟨hfirst, hjoins⟩ := h
  dsimp only at hfirst hjoins
  subst hfirst
  have hrun : ∀ (w : Walk), Walk.run catalog (first.target catalog) w js =
      Walk.run catalog (first.target catalog) w ks := by
    induction hjoins with
    | nil => exact fun _ => rfl
    | cons hjoin _ ih =>
        intro w
        simp only [Walk.run, hjoin.table, hjoin.kind]
        rw [ih]
  cases hjoins with
  | nil => rfl
  | cons hjoin hrest =>
      simp only [References.plan]
      rw [hrun]

section Rows

variable {A : Item → Item → Prop} (looks : ∀ {i j}, A i j → i.Looks j)

include looks

theorem startsWithWords_looks (words : List String) {items items' : List Item}
    (h : List.Forall₂ A items items') :
    startsWithWords words items = startsWithWords words items' := by
  induction h generalizing words with
  | nil => rfl
  | cons hhead _ ih =>
      cases words with
      | nil => rfl
      | cons word words => simp only [startsWithWords, (looks hhead).spells, ih words]

theorem breakAt_looks {stops : List Item → Bool}
    (hstops : ∀ {items items'}, List.Forall₂ A items items' → stops items = stops items')
    (depth : Nat) {items items' : List Item} (h : List.Forall₂ A items items') :
    List.Forall₂ A (breakAt stops depth items).1 (breakAt stops depth items').1 ∧
      List.Forall₂ A (breakAt stops depth items).2 (breakAt stops depth items').2 := by
  induction h generalizing depth with
  | nil => exact ⟨.nil, .nil⟩
  | @cons i j rest rest' hhead hrest ih =>
      simp only [breakAt, hstops (.cons hhead hrest), (looks hhead).depthAfter]
      split
      · exact ⟨.nil, .cons hhead hrest⟩
      · obtain ⟨hfront, hback⟩ := ih (j.depthAfter depth)
        exact ⟨.cons hhead hfront, hback⟩

theorem enclosed?_looks (depth : Nat) {items items' : List Item} (h : List.Forall₂ A items items') :
    (enclosed? Item.kind? depth items = none ∧ enclosed? Item.kind? depth items' = none) ∨
      ∃ inner close rest inner' close' rest',
        enclosed? Item.kind? depth items = some (inner, close, rest) ∧
        enclosed? Item.kind? depth items' = some (inner', close', rest') ∧
        inner.length = inner'.length := by
  have hkinds : items.map Item.kind? = items'.map Item.kind? := by
    induction h with
    | nil => rfl
    | cons hhead _ ih => simp only [List.map_cons, (looks hhead).kind?, ih]
  have hleft := enclosed?_map Item.kind? id depth items
  have hright := enclosed?_map Item.kind? id depth items'
  rw [hkinds, hright] at hleft
  simp only [id] at hleft
  cases hitems : enclosed? Item.kind? depth items with
  | none =>
      rw [hitems, Option.map_none, Option.map_eq_none_iff] at hleft
      exact .inl ⟨rfl, hleft⟩
  | some parts =>
      rw [hitems, Option.map_some, Option.map_eq_some_iff] at hleft
      obtain ⟨⟨inner', close', rest'⟩, hitems', heq⟩ := hleft
      have hlength := congrArg List.length (Prod.mk.inj heq).1
      simp only [List.length_map] at hlength
      exact .inr ⟨_, _, _, inner', close', rest', rfl, hitems', hlength.symm⟩

end Rows

structure Likeness (A : Item → Item → Prop) (E : Failure → Failure → Prop) : Prop where
  looks : ∀ {i j}, A i j → i.Looks j
  same : ∀ e, E e e
  misfit : ∀ {items items'}, List.Forall₂ A items items' → ∀ what,
    E (Reading.misfit what items) (Reading.misfit what items')
  leftmost : ∀ {e e'}, E e e' → E e.inLeftmost e'.inLeftmost

def ReadAlike {α β : Type} (A : Item → Item → Prop) (E : Failure → Failure → Prop)
    (R : α → β → Prop) (read : List Item → Except Failure (α × Nat))
    (read' : List Item → Except Failure (β × Nat)) : Prop :=
  ∀ {items items'}, List.Forall₂ A items items' →
    AgreeUpTo E (fun x y => R x.1 y.1 ∧ x.2 = y.2) (read items) (read' items')

namespace Reading

variable {A : Item → Item → Prop} {E : Failure → Failure → Prop} (h : Likeness A E)

include h

theorem misfits {α β : Type} {R : α → β → Prop} {items items' : List Item}
    (hitems : List.Forall₂ A items items') (what : String) :
    AgreeUpTo E R (.error (misfit what items)) (.error (misfit what items')) :=
  .error (h.misfit hitems what)

theorem mark?_alike (kind : Token.Kind) {i j : Item} (hij : A i j) : mark? kind i = mark? kind j := by
  rw [mark?, mark?, (h.looks hij).hasKind]

section Lists

variable {α β γ : Type} {R : α → β → Prop} {element : List Item → Except Failure (α × Nat)}
  {element' : List Item → Except Failure (β × Nat)}

omit h in
theorem linked_alike (helement : ReadAlike A E R element element') {link? : Item → Option γ}
    (hlink : ∀ {i j}, A i j → link? i = link? j) :
    ReadAlike A E (List.Forall₂ fun x y => x.1 = y.1 ∧ R x.2 y.2) (linked element link?)
      (linked element' link?) := by
  intro items items' hitems
  induction hn : items.length using Nat.strongRecOn generalizing items items' with
  | ind n ih =>
      cases hitems with
      | nil =>
          rw [linked, linked]
          exact .ok ⟨.nil, rfl⟩
      | @cons i j rest rest' hhead hrest =>
          rw [linked, linked, hlink hhead]
          cases link? j with
          | none => exact .ok ⟨.nil, rfl⟩
          | some link =>
              refine (helement hrest).bind ?_
              rintro ⟨a, k⟩ ⟨b, _⟩ ⟨hab, rfl⟩
              refine (ih _ ?_ (List.forall₂_drop k hrest) rfl).bind ?_
              · rw [← hn, List.length_drop, List.length_cons]
                omega
              · rintro ⟨more, m⟩ ⟨more', _⟩ ⟨hmore, rfl⟩
                exact .ok ⟨.cons ⟨rfl, hab⟩ hmore, rfl⟩

theorem separated_alike (helement : ReadAlike A E R element element') (mark : Token.Kind) :
    ReadAlike A E (List.Forall₂ R) (separated element mark) (separated element' mark) := by
  intro items items' hitems
  refine (helement hitems).bind ?_
  rintro ⟨a, n⟩ ⟨b, _⟩ ⟨hab, rfl⟩
  refine (linked_alike helement (mark?_alike h mark) (List.forall₂_drop n hitems)).bind ?_
  rintro ⟨more, k⟩ ⟨more', _⟩ ⟨hmore, rfl⟩
  refine .ok ⟨.cons hab ?_, rfl⟩
  rw [List.forall₂_map_left_iff, List.forall₂_map_right_iff]
  exact hmore.imp fun _ _ hpair => hpair.2

end Lists

theorem expect_alike (kind : Token.Kind) (what : String) :
    ReadAlike A E Eq (expect kind what) (expect kind what) := by
  intro items items' hitems
  cases hitems with
  | nil => exact misfits h .nil what
  | cons hhead hrest =>
      simp only [expect, (h.looks hhead).hasKind]
      split
      · exact .ok ⟨trivial, rfl⟩
      · exact misfits h (.cons hhead hrest) what

theorem name_alike (what : String) : ReadAlike A E Eq (name what) (name what) := by
  intro items items' hitems
  cases hitems with
  | nil => exact misfits h .nil what
  | cons hhead hrest =>
      simp only [name, (h.looks hhead).freeName?]
      split
      · exact .ok ⟨rfl, rfl⟩
      · exact misfits h (.cons hhead hrest) what

omit h in
theorem names_eq {α : Type} {xs ys : List (α × Text)}
    (hxs : List.Forall₂ (fun x y => x.1 = y.1 ∧ x.2 = y.2) xs ys) :
    xs.map Prod.snd = ys.map Prod.snd := by
  induction hxs with
  | nil => rfl
  | cons hpair _ ih => simp [hpair.2, ih]

theorem dotted_alike (first next : String) :
    ReadAlike A E Eq (dotted first next) (dotted first next) := by
  intro items items' hitems
  refine (name_alike h first hitems).bind ?_
  rintro ⟨head, n⟩ ⟨_, _⟩ ⟨rfl, rfl⟩
  refine (linked_alike (name_alike h next) (mark?_alike h .dot) (List.forall₂_drop n hitems)).bind ?_
  rintro ⟨parts, m⟩ ⟨parts', _⟩ ⟨hparts, rfl⟩
  exact .ok ⟨by simp [names_eq hparts], rfl⟩

section Conditions

def Anything {α β : Type} (_ : α) (_ : β) : Prop := True

theorem comparator_alike : ReadAlike A E Eq comparator comparator := by
  intro items items' hitems
  cases hitems with
  | nil => exact misfits h .nil _
  | cons hhead hrest =>
      have hforms : ∀ form : List String × Comparator, _ := fun form =>
        startsWithWords_looks h.looks form.1 (.cons hhead hrest)
      simp only [comparator, (h.looks hhead).operator?, hforms]
      split
      · exact .ok ⟨rfl, rfl⟩
      · split
        · exact .ok ⟨rfl, rfl⟩
        · exact misfits h (.cons hhead hrest) _

theorem namedOperand_alike : ReadAlike A E Anything namedOperand namedOperand := by
  intro items items' hitems
  refine (name_alike h _ hitems).bind ?_
  rintro ⟨first, n⟩ ⟨_, _⟩ ⟨rfl, rfl⟩
  have hrest := List.forall₂_drop n hitems
  dsimp only
  generalize items.drop n = rest at hrest ⊢
  generalize items'.drop n = rest' at hrest ⊢
  cases hrest with
  | nil => exact .ok ⟨trivial, rfl⟩
  | cons hhead hrest =>
      simp only [(h.looks hhead).hasKind]
      split
      · rcases enclosed?_looks h.looks 0 hrest with
          ⟨hleft, hright⟩ | ⟨inner, close, later, inner', close', later', hleft, hright, hlength⟩
        · rw [hleft, hright]
          exact misfits h .nil _
        · rw [hleft, hright]
          exact .ok ⟨trivial, by simp [hlength]⟩
      · refine (linked_alike (name_alike h _) (mark?_alike h .dot) (.cons hhead hrest)).bind ?_
        rintro ⟨parts, m⟩ ⟨parts', _⟩ ⟨-, rfl⟩
        exact .ok ⟨trivial, rfl⟩

variable {after after' : Option Item}
  (hafter : after.any (Item.hasKind · .dot) = after'.any (Item.hasKind · .dot))

include hafter

theorem operand_alike_step {room : Nat}
    (hlist : ∀ r, room = r + 1 → ReadAlike A E Anything (operand after r) (operand after' r)) :
    ReadAlike A E Anything (operand after room) (operand after' room) := by
  intro items items' hitems
  cases hitems with
  | nil =>
      unfold operand
      exact misfits h .nil _
  | @cons i j rest rest' hhead hrest =>
      have hnamed := namedOperand_alike h (.cons hhead hrest)
      have hmisfit : ∀ {R : Operand × Nat → Operand × Nat → Prop} what,
          AgreeUpTo E R (.error (misfit what (i :: rest))) (.error (misfit what (j :: rest'))) :=
        misfits h (.cons hhead hrest)
      have hdot : (rest.head? <|> after).any (Item.hasKind · .dot) =
          (rest'.head? <|> after').any (Item.hasKind · .dot) := by
        cases hrest with
        | nil => exact hafter
        | cons hnext _ => exact (h.looks hnext).hasKind .dot
      have hsigned : ∀ {k k' : Item} {more more' : List Item}, A k k' → List.Forall₂ A more more' →
          ∀ sign sign' : Text, AgreeUpTo E (fun x y => Anything x.1 y.1 ∧ x.2 = y.2)
            (if k.hasKind .number then .ok (Operand.literal sign, 2)
            else .error (misfit "expected an operand" (i :: k :: more)))
            (if k'.hasKind .number then .ok (Operand.literal sign', 2)
            else .error (misfit "expected an operand" (j :: k' :: more'))) := by
        intro k k' more more' hnext hmore sign sign'
        rw [(h.looks hnext).hasKind]
        split
        · exact .ok ⟨trivial, rfl⟩
        · exact misfits h (.cons hhead (.cons hnext hmore)) _
      have hlooks := h.looks hhead
      unfold operand
      rw [hlooks.kind?]
      rcases hlooks.text with hnone | htext
      · rw [hlooks.kind?] at hnone
        rw [hnone]
        exact .ok ⟨trivial, rfl⟩
      simp only [htext]
      split
      · exact .ok ⟨trivial, rfl⟩
      · exact .ok ⟨trivial, rfl⟩
      · exact .ok ⟨trivial, rfl⟩
      · -- Only a sign with a number behind it is an operand.
        generalize j.text = sign
        split
        · cases hrest with
          | cons hnext hmore => exact hsigned hnext hmore _ _
        · cases hrest with
          | cons hnext hmore => exact hsigned hnext hmore _ _
        · rename_i hminus hplus
          split
          · cases hrest with
            | cons => exact (hminus _ _ rfl rfl).elim
          · cases hrest with
            | cons => exact (hplus _ _ rfl rfl).elim
          · exact hmisfit _
      · split
        · exact .error (h.same _)
        · rename_i r
          refine (separated_alike h (hlist r rfl) .comma hrest).bind ?_
          rintro ⟨values, n⟩ ⟨values', _⟩ ⟨-, rfl⟩
          refine (expect_alike h _ _ (List.forall₂_drop n hrest)).bind ?_
          rintro ⟨u, m⟩ ⟨u', _⟩ ⟨-, rfl⟩
          exact .ok ⟨trivial, rfl⟩
      · split
        · exact .ok ⟨trivial, rfl⟩
        · exact hnamed
      · exact hnamed
      · rw [hdot]
        split
        · exact hnamed
        · exact .ok ⟨trivial, rfl⟩
      · exact hmisfit _

theorem operand_alike (room : Nat) :
    ReadAlike A E Anything (operand after room) (operand after' room) := by
  induction room with
  | zero => exact operand_alike_step h hafter fun r hr => absurd hr (by simp)
  | succ room ih =>
      refine operand_alike_step h hafter fun r hr => ?_
      obtain rfl := Nat.succ.inj hr
      exact ih

omit hafter in
theorem connected_alike {term term' : List Item → Except Failure (Condition × Nat)}
    (hterm : ReadAlike A E Anything term term') :
    ReadAlike A E Anything (connected term) (connected term') := by
  intro items items' hitems
  refine (hterm hitems).bind ?_
  rintro ⟨first, n⟩ ⟨first', _⟩ ⟨-, rfl⟩
  have hlink : ∀ {i j}, A i j → Connective.ofItem? i = Connective.ofItem? j := fun hij =>
    (h.looks hij).connective?
  refine (linked_alike hterm hlink (List.forall₂_drop n hitems)).bind ?_
  rintro ⟨more, m⟩ ⟨more', _⟩ ⟨-, rfl⟩
  exact .ok ⟨trivial, rfl⟩

theorem comparison_alike (room : Nat) :
    ReadAlike A E Anything (comparison after room) (comparison after' room) := by
  intro items items' hitems
  refine (operand_alike h hafter room hitems).bind ?_
  rintro ⟨lhs, n⟩ ⟨lhs', _⟩ ⟨-, rfl⟩
  refine (comparator_alike h (List.forall₂_drop n hitems)).bind ?_
  rintro ⟨op, m⟩ ⟨_, _⟩ ⟨rfl, rfl⟩
  refine (operand_alike h hafter room (List.forall₂_drop (n + m) hitems)).bind ?_
  rintro ⟨rhs, k⟩ ⟨rhs', _⟩ ⟨-, rfl⟩
  exact .ok ⟨trivial, rfl⟩

theorem term_alike_step {room : Nat}
    (hinner : ∀ r, room = r + 1 → ReadAlike A E Anything (term after r) (term after' r)) :
    ReadAlike A E Anything (term after room) (term after' room) := by
  intro items items' hitems
  cases hitems with
  | nil =>
      unfold term
      exact comparison_alike h hafter room .nil
  | cons hhead hrest =>
      have hcompare := comparison_alike h hafter room (.cons hhead hrest)
      unfold term
      simp only [(h.looks hhead).spells, (h.looks hhead).hasKind]
      split
      · split
        · exact .error (h.same _)
        · rename_i r
          refine (hinner r rfl hrest).bind ?_
          rintro ⟨inner, n⟩ ⟨inner', _⟩ ⟨-, rfl⟩
          exact .ok ⟨trivial, rfl⟩
      · split
        · split
          · exact .error (h.same _)
          · rename_i r
            refine (connected_alike h (hinner r rfl) hrest).bind ?_
            rintro ⟨inner, n⟩ ⟨inner', _⟩ ⟨-, rfl⟩
            refine (expect_alike h _ _ (List.forall₂_drop n hrest)).bind ?_
            rintro ⟨u, m⟩ ⟨u', _⟩ ⟨-, rfl⟩
            exact .ok ⟨trivial, rfl⟩
        · exact hcompare

theorem term_alike (room : Nat) :
    ReadAlike A E Anything (term after room) (term after' room) := by
  induction room with
  | zero => exact term_alike_step h hafter fun r hr => absurd hr (by simp)
  | succ room ih =>
      refine term_alike_step h hafter fun r hr => ?_
      obtain rfl := Nat.succ.inj hr
      exact ih

theorem condition_alike (room : Nat) :
    ReadAlike A E Anything (condition after room) (condition after' room) :=
  connected_alike h (term_alike h hafter room)

end Conditions

theorem tableOrSubselect_alike : ReadAlike A E Eq tableOrSubselect tableOrSubselect := by
  intro items items' hitems
  cases hitems with
  | nil => exact misfits h .nil _
  | cons hhead hrest =>
      have hdotted := dotted_alike h "expected a table name" "expected a name after `.`"
        (.cons hhead hrest)
      have hlooks := h.looks hhead
      cases hlooks with
      | subselect => exact .ok ⟨rfl, rfl⟩
      | token =>
          refine hdotted.bind ?_
          rintro ⟨parts, n⟩ ⟨_, _⟩ ⟨rfl, rfl⟩
          exact .ok ⟨rfl, rfl⟩

theorem aliasName?_alike : ReadAlike A E Eq aliasName? aliasName? := by
  intro items items' hitems
  cases hitems with
  | nil => exact .ok ⟨rfl, rfl⟩
  | cons hhead hrest =>
      simp only [aliasName?, (h.looks hhead).spells, (h.looks hhead).freeName?]
      split
      · refine (name_alike h _ hrest).bind ?_
        rintro ⟨text, n⟩ ⟨_, _⟩ ⟨rfl, rfl⟩
        exact .ok ⟨rfl, rfl⟩
      · split
        · exact .ok ⟨rfl, rfl⟩
        · exact .ok ⟨rfl, rfl⟩

theorem reference_alike (start : Nat) : ReadAlike A E Eq (reference start) (reference start) := by
  intro items items' hitems
  refine (tableOrSubselect_alike h hitems).bind ?_
  rintro ⟨name, n⟩ ⟨_, _⟩ ⟨rfl, rfl⟩
  refine (aliasName?_alike h (List.forall₂_drop n hitems)).bind ?_
  rintro ⟨aliasName, m⟩ ⟨_, _⟩ ⟨rfl, rfl⟩
  exact .ok ⟨rfl, rfl⟩

theorem joinKeywords?_alike {items items' : List Item} (hitems : List.Forall₂ A items items') :
    joinKeywords? items = joinKeywords? items' := by
  cases hitems with
  | nil => rfl
  | cons hhead hrest =>
      have hforms : ∀ form : Join.Kind × List String, _ := fun form =>
        startsWithWords_looks h.looks form.2 (.cons hhead hrest)
      simp only [joinKeywords?, (h.looks hhead).hasKind, hforms]

section Joins

variable {after after' : Option Item}
  (hafter : after.any (Item.hasKind · .dot) = after'.any (Item.hasKind · .dot))

include hafter

theorem clause_alike (room start : Nat) :
    ReadAlike A E Join.Clause.Alike (clause after room start) (clause after' room start) := by
  intro items items' hitems
  cases hitems with
  | nil => exact .ok ⟨.none, rfl⟩
  | cons hhead hrest =>
      simp only [clause, (h.looks hhead).spells]
      split
      · refine (condition_alike h hafter room hrest).bind ?_
        rintro ⟨tree, n⟩ ⟨tree', _⟩ ⟨-, rfl⟩
        exact .ok ⟨.on, rfl⟩
      · split
        · refine (expect_alike h _ _ hrest).bind ?_
          rintro ⟨u, k⟩ ⟨u', _⟩ ⟨-, rfl⟩
          refine (separated_alike h (name_alike h _) .comma (List.forall₂_drop k hrest)).bind ?_
          rintro ⟨columns, n⟩ ⟨columns', _⟩ ⟨hcolumns, rfl⟩
          obtain rfl := List.forall₂_eq_eq_eq ▸ hcolumns
          refine (expect_alike h _ _ (List.forall₂_drop (k + n) hrest)).bind ?_
          rintro ⟨u, m⟩ ⟨u', _⟩ ⟨-, rfl⟩
          exact .ok ⟨.using, rfl⟩
        · exact .ok ⟨.none, rfl⟩

theorem join_alike (room start : Nat) :
    ReadAlike A E Join.Alike (join after room start) (join after' room start) := by
  intro items items' hitems
  unfold join
  rw [joinKeywords?_alike h hitems]
  split
  · exact misfits h hitems _
  · rename_i kind k _
    refine (reference_alike h _ (List.forall₂_drop k hitems)).bind ?_
    rintro ⟨table, n⟩ ⟨_, _⟩ ⟨rfl, rfl⟩
    refine (clause_alike h hafter _ _ (List.forall₂_drop (k + n) hitems)).bind ?_
    rintro ⟨own, m⟩ ⟨own', _⟩ ⟨hown, rfl⟩
    exact .ok ⟨⟨rfl, rfl, hown, rfl, rfl⟩, rfl⟩

theorem joins_alike (room limit left start : Nat) {items items' : List Item}
    (hitems : List.Forall₂ A items items') :
    AgreeUpTo E (List.Forall₂ Join.Alike) (joins after room limit left start items)
      (joins after' room limit left start items') := by
  induction left generalizing start items items' with
  | zero =>
      cases hitems with
      | nil => exact .ok .nil
      | cons => exact .error (h.same _)
  | succ left ih =>
      cases hitems with
      | nil => exact .ok .nil
      | cons hhead hrest =>
          refine (join_alike h hafter room start (.cons hhead hrest)).bind ?_
          rintro ⟨first, n⟩ ⟨first', _⟩ ⟨hfirst, rfl⟩
          refine (ih _ (List.forall₂_drop n (.cons hhead hrest))).bind fun more more' hmore => ?_
          exact .ok (.cons hfirst hmore)

end Joins

end Reading

theorem References.parse_likeness {A : Item → Item → Prop} {E : Failure → Failure → Prop}
    (h : Likeness A E) {after after' : Option Item}
    (hafter : after.any (Item.hasKind · .dot) = after'.any (Item.hasKind · .dot))
    (room maxJoins start : Nat) {items items' : List Item} (hitems : List.Forall₂ A items items') :
    AgreeUpTo E References.Alike (References.parse room maxJoins start items after)
      (References.parse room maxJoins start items' after') := by
  refine ((Reading.reference_alike h start hitems).mapError h.leftmost).bind ?_
  rintro ⟨first, n⟩ ⟨_, _⟩ ⟨rfl, rfl⟩
  refine (Reading.joins_alike h hafter _ _ _ _ (List.forall₂_drop n hitems)).bind fun js js' hjs => ?_
  exact .ok ⟨rfl, hjs⟩

end SoftDelete
