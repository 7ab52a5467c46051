import Mathlib.Data.List.Perm.Basic
import SoftDelete.Join.Carry

namespace SoftDelete

theorem Reference.visibleName_of_target {catalog : Catalog} {table : Reference} {target : Text}
    (h : table.target catalog = some target) : table.visibleName = some target := by
  unfold Reference.target at h
  split at h
  · exact h
  · cases h

namespace Walk

def pending (first : Option Text) (w : Walk) : Option Text :=
  match w.previous with
  | none => first
  | some _ => w.carry

def Settled (w : Walk) : Prop :=
  w.previous = none ∨ w.previous = some .inner → w.carry = none

theorem settled_start : start.Settled := fun _ => rfl

theorem settled_next {w : Walk} (h : w.Settled) (first joined : Option Text) (shape : Join.Shape) :
    (w.next first joined shape).Settled := by
  intro hnext
  cases shape with
  | inner =>
      obtain ⟨previous, carry⟩ := w
      rcases previous with _ | previous
      · exact h (.inl rfl)
      · cases previous with
        | inner => exact h (.inr rfl)
        | left => rfl
        | right => rfl
  | left => simp [next] at hnext
  | right => simp [next] at hnext

theorem here_left (w : Walk) (first joined : Option Text) :
    w.here first joined .left = joined.toList := by
  obtain ⟨previous, carry⟩ := w
  cases previous <;> simp [here, Join.Shape.carryChange, Join.Shape.takesCarry]

theorem here_right {w : Walk} (h : w.Settled) (first joined : Option Text) :
    w.here first joined .right = (w.pending first).toList := by
  obtain ⟨previous, carry⟩ := w
  rcases previous with _ | previous
  · simp [here, pending, Join.Shape.carryChange, Join.Shape.takesCarry]
  · cases previous with
    | inner =>
        have hcarry : carry = none := h (.inr rfl)
        simp [here, pending, Join.Shape.carryChange, Join.Shape.takesCarry, hcarry]
    | left => simp [here, pending, Join.Shape.carryChange, Join.Shape.takesCarry]
    | right => simp [here, pending, Join.Shape.carryChange, Join.Shape.takesCarry]

theorem here_inner {w : Walk} (h : w.Settled) (first joined : Option Text) :
    (w.here first joined .inner).Perm ((w.pending first).toList ++ joined.toList) := by
  obtain ⟨previous, carry⟩ := w
  rcases previous with _ | previous
  · simp [here, pending, Join.Shape.carryChange, Join.Shape.takesCarry]
  · cases previous with
    | inner =>
        have hcarry : carry = none := h (.inr rfl)
        simp [here, pending, Join.Shape.carryChange, Join.Shape.takesCarry, hcarry]
    | left =>
        simpa [here, pending, Join.Shape.carryChange, Join.Shape.takesCarry] using
          List.perm_append_comm
    | right =>
        simpa [here, pending, Join.Shape.carryChange, Join.Shape.takesCarry] using
          List.perm_append_comm

theorem pending_next_left (w : Walk) (first joined : Option Text) :
    (w.next first joined .left).pending first = w.pending first := by
  obtain ⟨previous, carry⟩ := w
  cases previous <;> simp [next, pending, Join.Shape.carryChange, Join.Shape.takesCarry]

theorem pending_next_inner {w : Walk} (h : w.Settled) (first joined : Option Text) :
    (w.next first joined .inner).pending first = none :=
  settled_next h first joined .inner (.inr rfl)

theorem pending_next_right (w : Walk) (first joined : Option Text) :
    (w.next first joined .right).pending first = joined := rfl

theorem here_perm {w : Walk} (h : w.Settled) (first joined : Option Text) (shape : Join.Shape) :
    (w.here first joined shape ++ ((w.next first joined shape).pending first).toList).Perm
      ((w.pending first).toList ++ joined.toList) := by
  cases shape with
  | inner =>
      rw [pending_next_inner h]
      simpa using here_inner h first joined
  | left =>
      rw [here_left, pending_next_left]
      exact List.perm_append_comm
  | right => rw [here_right h, pending_next_right]

def final (catalog : Catalog) (first : Option Text) (w : Walk) : List Join → Walk
  | [] => w
  | join :: joins =>
      final catalog first (w.next first (join.table.target catalog) join.kind.shape) joins

theorem run_carry (catalog : Catalog) (first : Option Text) (w : Walk) (joins : List Join) :
    (run catalog first w joins).2 = (final catalog first w joins).carry := by
  induction joins generalizing w with
  | nil => rfl
  | cons join joins ih => exact ih _

theorem final_pending {w : Walk} (hw : w.previous ≠ none) (catalog : Catalog)
    (first : Option Text) (joins : List Join) :
    (final catalog first w joins).pending first = (final catalog first w joins).carry := by
  induction joins generalizing w with
  | nil =>
      obtain ⟨previous, carry⟩ := w
      cases previous with
      | none => exact absurd rfl hw
      | some shape => rfl
  | cons join joins ih => exact ih (by simp [next])

theorem run_perm {w : Walk} (h : w.Settled) (catalog : Catalog) (first : Option Text)
    (joins : List Join) :
    ((run catalog first w joins).1.flatten ++
        ((final catalog first w joins).pending first).toList).Perm
      ((w.pending first).toList ++ joins.flatMap fun join => (join.table.target catalog).toList) := by
  induction joins generalizing w with
  | nil => simp [run, final]
  | cons join joins ih =>
      have hstep := here_perm h first (join.table.target catalog) join.kind.shape
      have hrest := ih (settled_next h first (join.table.target catalog) join.kind.shape)
      simp only [run, final, List.flatten_cons, List.flatMap_cons, List.append_assoc]
      apply (hrest.append_left _).trans
      simpa only [List.append_assoc] using hstep.append_right _

end Walk

namespace References

def tables (r : References) : List Reference :=
  r.first :: r.joins.map Join.table

theorem plan_eq (catalog : Catalog) (r : References) :
    r.plan catalog =
      ⟨(Walk.run catalog (r.first.target catalog) .start r.joins).1,
        (Walk.final catalog (r.first.target catalog) .start r.joins).pending
          (r.first.target catalog)⟩ := by
  obtain ⟨first, joins⟩ := r
  cases joins with
  | nil => rfl
  | cons join joins =>
      have hw : (Walk.start.next (first.target catalog) (join.table.target catalog)
          join.kind.shape).previous ≠ none := by simp [Walk.next]
      simp only [plan, Walk.run_carry, Walk.final, Walk.final_pending hw]

theorem plan_constrained_perm (catalog : Catalog) (r : References) :
    (r.plan catalog).constrained.Perm
      (r.tables.flatMap fun table => (table.target catalog).toList) := by
  have h := Walk.run_perm Walk.settled_start catalog (r.first.target catalog) r.joins
  rw [plan_eq]
  simpa [FilterPlan.constrained, tables, List.flatMap_map, Walk.pending, Walk.start] using h

theorem exists_table_of_plan {catalog : Catalog} {r : References} {target : Text}
    (h : target ∈ (r.plan catalog).constrained) :
    ∃ table ∈ r.tables, table.visibleName = some target := by
  rw [(r.plan_constrained_perm catalog).mem_iff] at h
  obtain ⟨table, htable, htarget⟩ := List.mem_flatMap.1 h
  exact ⟨table, htable, Reference.visibleName_of_target (Option.mem_toList.1 htarget)⟩

end References

end SoftDelete
