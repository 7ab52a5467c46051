import Mathlib.Data.List.Nodup
import SoftDelete.Proofs.Join.Walk

namespace SoftDelete

namespace Walk

variable {catalog : Catalog} {first : Option Text} {w : Walk} {joins : List Join}

theorem settled_final (h : w.Settled) : (final catalog first w joins).Settled := by
  induction joins generalizing w with
  | nil => exact h
  | cons join joins ih => exact ih (settled_next h first (join.table.target catalog) join.kind.shape)

theorem final_concat (join : Join) :
    final catalog first w (joins ++ [join]) =
      (final catalog first w joins).next first (join.table.target catalog) join.kind.shape := by
  induction joins generalizing w with
  | nil => rfl
  | cons head joins ih => exact ih

theorem run_getElem? {k : Nat} {join : Join} (h : joins[k]? = some join) :
    (run catalog first w joins).1[k]? =
      some ((final catalog first w (joins.take k)).here first (join.table.target catalog)
        join.kind.shape) := by
  induction joins generalizing w k with
  | nil => cases h
  | cons head joins ih =>
      cases k with
      | zero =>
          obtain rfl : head = join := by simpa using h
          rfl
      | succ k => simpa [run, final] using ih h

theorem mem_of_mem_here (h : w.Settled) {joined : Option Text} {shape : Join.Shape}
    {target : Text} (htarget : target ∈ w.here first joined shape ∨
      target ∈ (w.next first joined shape).pending first) :
    target ∈ w.pending first ∨ target ∈ joined := by
  have hmem : target ∈ w.here first joined shape ++
      ((w.next first joined shape).pending first).toList := by simpa using htarget
  simpa using (here_perm h first joined shape).mem_iff.1 hmem

theorem exists_of_pending_final (h : w.Settled) {target : Text}
    (htarget : target ∈ (final catalog first w joins).pending first) :
    target ∈ w.pending first ∨ ∃ table ∈ joins.map Join.table, target ∈ table.target catalog := by
  induction joins generalizing w with
  | nil => exact .inl htarget
  | cons join joins ih =>
      rcases ih (settled_next h first (join.table.target catalog) join.kind.shape) htarget with
        hpending | ⟨table, hmem, hjoin⟩
      · rcases mem_of_mem_here h (.inr hpending) with hfirst | hjoined
        · exact .inl hfirst
        · exact .inr ⟨join.table, by simp, hjoined⟩
      · exact .inr ⟨table, by simp only [List.map_cons, List.mem_cons, hmem, or_true], hjoin⟩

theorem carry_of_change (h : w.Settled) {shape : Join.Shape}
    (hchange : shape.carryChange w.previous ≠ .keep) :
    w.carry = none ∨ shape.takesCarry w.previous = true := by
  obtain ⟨previous, carry⟩ := w
  cases shape with
  | inner => exact absurd rfl hchange
  | left =>
      cases previous with
      | none => exact .inl (h (.inl rfl))
      | some previous => exact absurd rfl hchange
  | right =>
      rcases previous with _ | previous
      · exact .inl (h (.inl rfl))
      · cases previous with
        | inner => exact .inl (h (.inr rfl))
        | left | right => exact .inr rfl

theorem carry_suffix_here {shape : Join.Shape} (h : shape.takesCarry w.previous = true)
    (joined : Option Text) : w.carry.toList <:+ w.here first joined shape := by
  simp only [here, h, if_true]
  exact List.suffix_append _ _

end Walk

namespace References

variable {catalog : Catalog} {r : References} {k : Nat} {join : Join} {target : Text}

def walkTo (catalog : Catalog) (r : References) (k : Nat) : Walk :=
  Walk.final catalog (r.first.target catalog) .start (r.joins.take k)

def tablesTo (r : References) (k : Nat) : List Reference :=
  r.first :: (r.joins.take k).map Join.table

def targetsAt (catalog : Catalog) (r : References) (k : Nat) (join : Join) : List Text :=
  (r.walkTo catalog k).here (r.first.target catalog) (join.table.target catalog) join.kind.shape

theorem settled_walkTo : (r.walkTo catalog k).Settled :=
  Walk.settled_final Walk.settled_start

theorem walkTo_succ (h : r.joins[k]? = some join) :
    r.walkTo catalog (k + 1) =
      (r.walkTo catalog k).next (r.first.target catalog) (join.table.target catalog)
        join.kind.shape := by
  rw [walkTo, List.take_add_one, h]
  exact Walk.final_concat join

theorem tablesTo_succ (h : r.joins[k]? = some join) :
    r.tablesTo (k + 1) = r.tablesTo k ++ [join.table] := by
  rw [tablesTo, List.take_add_one, h]
  simp [tablesTo]

theorem tables_eq (r : References) (k : Nat) :
    r.tables = r.tablesTo k ++ (r.joins.drop k).map Join.table := by
  rw [tables, tablesTo, List.cons_append, ← List.map_append, List.take_append_drop]

theorem plan_getElem? (h : r.joins[k]? = some join) :
    (r.plan catalog).joins[k]? = some (r.targetsAt catalog k join) := by
  rw [plan_eq]
  exact Walk.run_getElem? h

theorem exists_of_pending
    (h : target ∈ (r.walkTo catalog k).pending (r.first.target catalog)) :
    ∃ table ∈ r.tablesTo k, target ∈ table.target catalog := by
  rcases Walk.exists_of_pending_final Walk.settled_start h with hfirst | ⟨table, hmem, htable⟩
  · exact ⟨r.first, by simp [tablesTo], hfirst⟩
  · exact ⟨table, List.mem_cons_of_mem _ hmem, htable⟩

theorem exists_of_mem_targetsAt (h : r.joins[k]? = some join)
    (htarget : target ∈ r.targetsAt catalog k join) :
    ∃ table ∈ r.tablesTo (k + 1), target ∈ table.target catalog := by
  rw [tablesTo_succ h]
  rcases Walk.mem_of_mem_here settled_walkTo (.inl htarget) with hpending | hjoined
  · obtain ⟨table, hmem, htable⟩ := exists_of_pending hpending
    exact ⟨table, List.mem_append_left [join.table] hmem, htable⟩
  · exact ⟨join.table, by simp, hjoined⟩

theorem not_visible_of_mem_tablesTo (h : r.joins[k]? = some join)
    (hnames : (r.tables.filterMap Reference.visibleName).Nodup) {table : Reference}
    (hmem : table ∈ r.tablesTo k) (htable : table.visibleName = some target) :
    join.table.visibleName ≠ some target := by
  intro hown
  rw [tables_eq r (k + 1), tablesTo_succ h, List.filterMap_append, List.filterMap_append,
    List.nodup_append, List.nodup_append] at hnames
  refine hnames.1.2.2 target ?_ target ?_ rfl
  · exact List.mem_filterMap.2 ⟨table, hmem, htable⟩
  · exact List.mem_filterMap.2 ⟨join.table, by simp, hown⟩

theorem flatMap_target (catalog : Catalog) (tables : List Reference) :
    tables.flatMap (fun table => (table.target catalog).toList) =
      (tables.filter fun table => table.name.any catalog.contains).filterMap
        Reference.visibleName := by
  rw [List.filterMap_filter, List.filterMap_eq_flatMap_toList]
  rfl

/-- Every reference to a registered table, and no other, gets one filter. The `ON` of a left join
filters nothing but the table that the join brings in, and the `ON` of a right join does not filter
that table. -/
theorem plan_places_once (catalog : Catalog) (r : References) :
    (r.plan catalog).constrained.Perm
        ((r.tables.filter fun table => table.name.any catalog.contains).filterMap
          Reference.visibleName) ∧
      ((r.tables.filterMap Reference.visibleName).Nodup →
        ∀ (k : Nat) (join : Join), r.joins[k]? = some join →
          ∃ targets, (r.plan catalog).joins[k]? = some targets ∧
            (join.kind.shape = .left →
              ∀ target ∈ targets, join.table.visibleName = some target) ∧
            (join.kind.shape = .right →
              ∀ target ∈ targets, join.table.visibleName ≠ some target) ∧
            (∀ target ∈ targets, ∃ table ∈ r.tablesTo (k + 1),
              table.visibleName = some target) ∧
            (join.kind.shape.carryChange (r.walkTo catalog k).previous ≠ .keep →
              (r.walkTo catalog k).carry = none ∨
                join.kind.shape.takesCarry (r.walkTo catalog k).previous = true ∧
                  (r.walkTo catalog k).carry.toList <:+ targets)) := by
  refine ⟨?_, fun hnames k join hjoin => ⟨_, plan_getElem? hjoin, ?_, ?_, ?_, ?_⟩⟩
  · rw [← flatMap_target]
    exact plan_constrained_perm catalog r
  · intro hshape target htarget
    rw [targetsAt, hshape, Walk.here_left] at htarget
    exact Reference.visibleName_of_target (by simpa using htarget)
  · intro hshape target htarget
    rw [targetsAt, hshape, Walk.here_right settled_walkTo] at htarget
    obtain ⟨table, hmem, htable⟩ := exists_of_pending (by simpa using htarget)
    exact not_visible_of_mem_tablesTo hjoin hnames hmem (Reference.visibleName_of_target htable)
  · intro target htarget
    obtain ⟨table, hmem, htable⟩ := exists_of_mem_targetsAt hjoin htarget
    exact ⟨table, hmem, Reference.visibleName_of_target htable⟩
  · intro hchange
    exact (Walk.carry_of_change settled_walkTo hchange).imp id fun htakes =>
      ⟨htakes, Walk.carry_suffix_here htakes _⟩

def rightThenRight : References where
  first := ⟨some "plain".toList, none, ⟨0, 1⟩⟩
  joins := [
    ⟨.right, ⟨some "hist_b".toList, some ['b'], ⟨3, 5⟩⟩, none, ⟨1, 3⟩, ⟨1, 5⟩⟩,
    ⟨.rightOuter, ⟨some "hist_c".toList, none, ⟨8, 9⟩⟩, none, ⟨5, 8⟩, ⟨5, 9⟩⟩]

theorem plan_places_once_rightThenRight :
    let catalog : Catalog := ⟨["hist_b".toList, "hist_c".toList]⟩
    (rightThenRight.tables.filterMap Reference.visibleName).Nodup ∧
      ∃ join targets, rightThenRight.joins[1]? = some join ∧
        (rightThenRight.plan catalog).joins[1]? = some targets ∧
        (∀ target ∈ targets, join.table.visibleName ≠ some target) ∧
        (rightThenRight.walkTo catalog 1).carry.toList <:+ targets := by
  intro catalog
  obtain ⟨targets, hplan, -, hright, -, hcarry⟩ :=
    (plan_places_once catalog rightThenRight).2 (by decide) 1 _ rfl
  refine ⟨by decide, _, targets, rfl, hplan, hright rfl, ?_⟩
  exact ((hcarry (by decide)).resolve_left (by decide)).2

end References

end SoftDelete
