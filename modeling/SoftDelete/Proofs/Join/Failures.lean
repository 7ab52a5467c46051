import SoftDelete.Join.Filter
import SoftDelete.Join.Reading.References
import SoftDelete.Proofs.Join.Layout

namespace SoftDelete

def FailsWith {α : Type} (P : Failure → Prop) (x : Except Failure α) : Prop :=
  ∀ e, x = .error e → P e

namespace FailsWith

variable {α β : Type} {P Q : Failure → Prop}

theorem ok (a : α) : FailsWith P (.ok a) := nofun

theorem error {e : Failure} (h : P e) : FailsWith P (.error e : Except Failure α) := by
  intro e' he
  cases he
  exact h

theorem bind {x : Except Failure α} {f : α → Except Failure β} (hx : FailsWith P x)
    (hf : ∀ a, FailsWith P (f a)) : FailsWith P (x >>= f) := by
  intro e h
  cases x with
  | error e' =>
      cases h
      exact hx e rfl
  | ok a => exact hf a e h

theorem mono {x : Except Failure α} (h : FailsWith P x) (hPQ : ∀ e, P e → Q e) : FailsWith Q x :=
  fun e he => hPQ e (h e he)

theorem mapM {f : α → Except Failure β} (hf : ∀ a, FailsWith P (f a)) (as : List α) :
    FailsWith P (as.mapM f) := by
  induction as with
  | nil => exact .ok []
  | cons a as ih =>
      rw [List.mapM_cons]
      exact (hf a).bind fun b => ih.bind fun bs => .ok (b :: bs)

end FailsWith

namespace Failure

def IsMisfit : Failure → Prop
  | .unmatched _ => True
  | _ => False

def InReferences : Failure → Prop
  | .unmatched _ | .tooManyJoins _ => True
  | _ => False

def InLevel : Failure → Prop
  | .unmatched _ | .tooManyJoins _ | .joinWithoutOn _ => True
  | _ => False

theorem IsMisfit.inReferences {e : Failure} (h : e.IsMisfit) : e.InReferences := by
  cases e <;> trivial

theorem InReferences.inLevel {e : Failure} (h : e.InReferences) : e.InLevel := by
  cases e <;> trivial

end Failure

namespace Reading

open Failure

def Expects {α : Type} (read : List Item → Except Failure (α × Nat)) : Prop :=
  ∀ items, FailsWith IsMisfit (read items)

theorem misfit_isMisfit (what : String) (items : List Item) : (misfit what items).IsMisfit := by
  cases items <;> trivial

theorem linked_expects {α β : Type} {element : List Item → Except Failure (α × Nat)}
    (helement : Expects element) {link? : Item → Option β} : Expects (linked element link?) := by
  intro items
  fun_induction linked element link? items with
  | case1 | case2 => exact .ok _
  | case3 i rest link hlink ih =>
      exact (helement rest).bind fun first => (ih first.2).bind fun more => .ok _

theorem separated_expects {α : Type} {element : List Item → Except Failure (α × Nat)}
    (helement : Expects element) (mark : Token.Kind) : Expects (separated element mark) :=
  fun items => (helement items).bind fun _ => (linked_expects helement _).bind fun _ => .ok _

theorem expect_expects (kind : Token.Kind) (what : String) : Expects (expect kind what) := by
  intro items
  unfold expect
  split
  · exact .error (misfit_isMisfit ..)
  · split
    · exact .ok _
    · exact .error (misfit_isMisfit ..)

theorem name_expects (what : String) : Expects (name what) := by
  intro items
  unfold name
  split
  · exact .error (misfit_isMisfit ..)
  · split
    · exact .ok _
    · exact .error (misfit_isMisfit ..)

theorem dotted_expects (first next : String) : Expects (dotted first next) :=
  fun items => (name_expects first items).bind fun _ =>
    (linked_expects (name_expects next) _).bind fun _ => .ok _

theorem comparator_expects : Expects comparator := by
  intro items
  unfold comparator
  split
  · exact .error (misfit_isMisfit ..)
  · split
    · exact .ok _
    · split
      · exact .ok _
      · exact .error (misfit_isMisfit ..)

theorem namedOperand_expects : Expects namedOperand := by
  intro items
  refine (name_expects _ items).bind fun ⟨first, n⟩ => ?_
  dsimp only
  split
  · exact .ok _
  · split
    · split
      · exact .error (misfit_isMisfit ..)
      · exact .ok _
    · exact (linked_expects (name_expects _) _).bind fun _ => .ok _

theorem operand_expects_step {after : Option Item} {room : Nat}
    (hlist : ∀ r, room = r + 1 → Expects (operand after r)) : Expects (operand after room) := by
  intro items
  unfold operand
  split
  · exact .error (misfit_isMisfit ..)
  rename_i i rest
  have hnamed := namedOperand_expects (i :: rest)
  split
  · exact .ok _
  · exact .ok _
  · exact .ok _
  · have hsigned : ∀ j : Item, FailsWith IsMisfit
        (if j.hasKind .number then Except.ok (Operand.literal (i.text ++ j.text), 2)
          else .error (misfit "expected an operand" (i :: rest))) := by
      intro j
      split
      · exact .ok _
      · exact .error (misfit_isMisfit ..)
    split
    · exact hsigned _
    · exact hsigned _
    · exact .error (misfit_isMisfit ..)
  · split
    · exact .error trivial
    · rename_i r
      exact (separated_expects (hlist r rfl) .comma rest).bind fun _ =>
        (expect_expects _ _ _).bind fun _ => .ok _
  · split
    · exact .ok _
    · exact hnamed
  · exact hnamed
  · split
    · exact hnamed
    · exact .ok _
  · exact .error (misfit_isMisfit ..)

theorem operand_expects (after : Option Item) (room : Nat) : Expects (operand after room) := by
  induction room with
  | zero => exact operand_expects_step fun r hr => absurd hr (by simp)
  | succ room ih =>
      refine operand_expects_step fun r hr => ?_
      obtain rfl := Nat.succ.inj hr
      exact ih

theorem connected_expects {term : List Item → Except Failure (Condition × Nat)}
    (hterm : Expects term) : Expects (connected term) :=
  fun items => (hterm items).bind fun _ => (linked_expects hterm _).bind fun _ => .ok _

theorem comparison_expects (after : Option Item) (room : Nat) : Expects (comparison after room) :=
  fun items => (operand_expects after room items).bind fun _ => (comparator_expects _).bind fun _ =>
    (operand_expects after room _).bind fun _ => .ok _

theorem term_expects_step {after : Option Item} {room : Nat}
    (hinner : ∀ r, room = r + 1 → Expects (term after r)) : Expects (term after room) := by
  intro items
  unfold term
  split
  · exact comparison_expects after room []
  · split
    · split
      · exact .error trivial
      · rename_i r
        exact (hinner r rfl _).bind fun _ => .ok _
    · split
      · split
        · exact .error trivial
        · rename_i r
          exact (connected_expects (hinner r rfl) _).bind fun _ =>
            (expect_expects _ _ _).bind fun _ => .ok _
      · exact comparison_expects after room _

theorem term_expects (after : Option Item) (room : Nat) : Expects (term after room) := by
  induction room with
  | zero => exact term_expects_step fun r hr => absurd hr (by simp)
  | succ room ih =>
      refine term_expects_step fun r hr => ?_
      obtain rfl := Nat.succ.inj hr
      exact ih

theorem condition_expects (after : Option Item) (room : Nat) : Expects (condition after room) :=
  connected_expects (term_expects after room)

theorem tableOrSubselect_expects : Expects tableOrSubselect := by
  intro items
  unfold tableOrSubselect
  split
  · exact .ok _
  · exact (dotted_expects _ _ _).bind fun _ => .ok _

theorem aliasName?_expects : Expects aliasName? := by
  intro items
  unfold aliasName?
  split
  · exact .ok _
  · split
    · exact (name_expects _ _).bind fun _ => .ok _
    · split
      · exact .ok _
      · exact .ok _

theorem reference_expects (start : Nat) : Expects (reference start) :=
  fun items => (tableOrSubselect_expects items).bind fun _ =>
    (aliasName?_expects _).bind fun _ => .ok _

theorem clause_expects (after : Option Item) (room start : Nat) :
    Expects (clause after room start) := by
  intro items
  unfold clause
  split
  · exact .ok _
  · split
    · exact (condition_expects after room _).bind fun _ => .ok _
    · split
      · exact (expect_expects _ _ _).bind fun _ => (separated_expects (name_expects _) _ _).bind
          fun _ => (expect_expects _ _ _).bind fun _ => .ok _
      · exact .ok _

theorem join_expects (after : Option Item) (room start : Nat) : Expects (join after room start) := by
  intro items
  unfold join
  split
  · exact .error (misfit_isMisfit ..)
  · exact (reference_expects _ _).bind fun _ => (clause_expects _ _ _ _).bind fun _ => .ok _

theorem joins_fails (after : Option Item) (room limit left start : Nat) (items : List Item) :
    FailsWith InReferences (joins after room limit left start items) := by
  induction left generalizing start items with
  | zero =>
      cases items with
      | nil => exact .ok []
      | cons i rest => exact .error trivial
  | succ left ih =>
      cases items with
      | nil => exact .ok []
      | cons i rest =>
          have hfirst := (join_expects after room start (i :: rest)).mono
            fun _ => IsMisfit.inReferences
          exact hfirst.bind fun first => (ih _ _).bind fun _ => .ok _

end Reading

namespace References

open Failure

theorem parse_fails (room maxJoins start : Nat) (items : List Item) (after : Option Item) :
    FailsWith InReferences (parse room maxJoins start items after) := by
  have hfirst : FailsWith InReferences
      ((Reading.reference start items).mapError Failure.inLeftmost) := by
    intro e h
    cases hread : Reading.reference start items with
    | ok a =>
        rw [hread] at h
        cases h
    | error e' =>
        have he' := Reading.reference_expects start items e' hread
        rw [hread] at h
        cases h
        cases e' <;> trivial
  exact hfirst.bind fun _ => (Reading.joins_fails _ _ _ _ _ _).bind fun _ => .ok _

theorem edits_fails (l : Level) (column : Text) (r : References) (plan : FilterPlan) :
    FailsWith InLevel (r.edits l column plan) := by
  refine .mapM (fun pair => ?_) _
  have hown : FailsWith InLevel (pair.1.ownCondition l) := by
    unfold Join.ownCondition
    split
    · exact .ok _
    · exact .error trivial
    · split
      · exact .error trivial
      · exact .ok _
  exact hown.bind fun _ => .ok _

end References

end SoftDelete
