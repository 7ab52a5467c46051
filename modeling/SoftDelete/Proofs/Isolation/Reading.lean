import SoftDelete.Proofs.Isolation.Pattern
import SoftDelete.Proofs.Join.Likeness

namespace SoftDelete

inductive Agree {α β : Type} (R : α → β → Prop) : Except Failure α → Except Failure β → Prop where
  | ok {a : α} {b : β} (h : R a b) : Agree R (.ok a) (.ok b)
  | error {e e' : Failure} (h : e.kind = e'.kind) : Agree R (.error e) (.error e')

namespace Agree

variable {α β γ δ : Type} {R : α → β → Prop} {S : γ → δ → Prop}

theorem bind {x : Except Failure α} {y : Except Failure β} {u : α → Except Failure γ}
    {v : β → Except Failure δ} (h : Agree R x y) (hnext : ∀ a b, R a b → Agree S (u a) (v b)) :
    Agree S (x >>= u) (y >>= v) := by
  cases h with
  | ok h => exact hnext _ _ h
  | error h => exact .error h

theorem mono {T : α → β → Prop} {x : Except Failure α} {y : Except Failure β} (h : Agree R x y)
    (hT : ∀ a b, R a b → T a b) : Agree T x y := by
  cases h with
  | ok h => exact .ok (hT _ _ h)
  | error h => exact .error h

end Agree

theorem AgreeUpTo.agree {α β : Type} {R : α → β → Prop} {x : Except Failure α}
    {y : Except Failure β} (h : AgreeUpTo (fun e e' => e.kind = e'.kind) R x y) : Agree R x y := by
  cases h with
  | ok h => exact .ok h
  | error h => exact .error h

namespace Item

inductive Alike : Item → Item → Prop where
  | same (i : Item) : Alike i i
  | subselects {gap gap' text text' body body' : Text} :
      Alike (.subselect gap text body) (.subselect gap' text' body')

theorem Alike.looks {i j : Item} (h : Alike i j) : i.Looks j := by
  cases h with
  | same =>
      cases i with
      | token => exact .token
      | subselect => exact .subselect
  | subselects => exact .subselect

theorem alike_likeness : Likeness Alike fun e e' => e.kind = e'.kind where
  looks := Alike.looks
  same _ := rfl
  misfit {items items'} _ what := by cases items <;> cases items' <;> rfl
  leftmost {e e'} h := by
    have hkind : ∀ e : Failure, e.inLeftmost.kind = e.kind := fun e => by cases e <;> rfl
    rw [hkind, hkind, h]

end Item

section Filled

variable {f g : Item}

theorem startsWithWords_fill {words : List String}
    (h : ∀ word ∈ words, f.spells word = g.spells word) (slots : Pattern Item) :
    startsWithWords words (fill f slots) = startsWithWords words (fill g slots) := by
  induction slots generalizing words with
  | nil => rfl
  | cons o slots ih =>
      cases words with
      | nil => rfl
      | cons word words =>
          have hword : (o.getD f).spells word = (o.getD g).spells word := by
            cases o with
            | none => exact h word (by simp)
            | some i => rfl
          have hwords := ih fun other hother => h other (List.mem_cons_of_mem word hother)
          simp only [fill_cons, startsWithWords, hword, hwords]

theorem exists_of_breakAt (h : ∀ depth, f.depthAfter depth = g.depthAfter depth)
    {stops : List Item → Bool} (hstops : ∀ slots, stops (fill f slots) = stops (fill g slots))
    (depth : Nat) (slots : Pattern Item) :
    ∃ front rest, slots = front ++ rest ∧
      breakAt stops depth (fill f slots) = (fill f front, fill f rest) ∧
      breakAt stops depth (fill g slots) = (fill g front, fill g rest) := by
  induction slots generalizing depth with
  | nil => exact ⟨[], [], rfl, rfl, rfl⟩
  | cons o slots ih =>
      have hdepth : (o.getD f).depthAfter depth = (o.getD g).depthAfter depth := by
        cases o with
        | none => exact h depth
        | some i => rfl
      by_cases hstop : depth = 0 ∧ stops (fill g (o :: slots)) = true
      · have hstop' : depth = 0 ∧ stops (fill f (o :: slots)) = true := by rwa [hstops]
        rw [fill_cons] at hstop hstop'
        refine ⟨[], o :: slots, rfl, ?_, ?_⟩
        · rw [fill_cons, breakAt, if_pos hstop']
          rfl
        · rw [fill_cons, breakAt, if_pos hstop]
          rfl
      · have hstop' : ¬ (depth = 0 ∧ stops (fill f (o :: slots)) = true) := by rwa [hstops]
        rw [fill_cons] at hstop hstop'
        obtain ⟨front, rest, rfl, hleft, hright⟩ := ih ((o.getD g).depthAfter depth)
        refine ⟨o :: front, rest, rfl, ?_, ?_⟩
        · rw [fill_cons, breakAt, if_neg hstop', hdepth, hleft]
          rfl
        · rw [fill_cons, breakAt, if_neg hstop, hright]
          rfl

theorem forall₂_fill (h : Item.Alike f g) (slots : Pattern Item) :
    List.Forall₂ Item.Alike (fill f slots) (fill g slots) := by
  induction slots with
  | nil => exact .nil
  | cons o slots ih =>
      cases o with
      | none => exact .cons h ih
      | some i => exact .cons (.same i) ih

end Filled

theorem References.parse_alike {f g : Item} (h : Item.Alike f g) {after after' : Option Item}
    (hafter : after.any (Item.hasKind · .dot) = after'.any (Item.hasKind · .dot))
    (room maxJoins start : Nat) (slots : Pattern Item) :
    Agree References.Alike (References.parse room maxJoins start (fill f slots) after)
      (References.parse room maxJoins start (fill g slots) after') :=
  (parse_likeness Item.alike_likeness hafter room maxJoins start (forall₂_fill h slots)).agree

end SoftDelete
