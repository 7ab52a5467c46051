import SoftDelete.Join.Filter
import SoftDelete.Proofs.Join.Layout

namespace SoftDelete

def ItemRange.shift (k : Nat) (r : ItemRange) : ItemRange :=
  ⟨k + r.start, k + r.stop⟩

def Reference.shift (k : Nat) (r : Reference) : Reference :=
  { r with items := r.items.shift k }

def Join.Clause.shift (k : Nat) : Join.Clause → Join.Clause
  | .on condition items => .on condition (items.shift k)
  | .using columns => .using columns

def Join.shift (k : Nat) (j : Join) : Join where
  kind := j.kind
  table := j.table.shift k
  clause := j.clause.map (Join.Clause.shift k)
  keywordItems := j.keywordItems.shift k
  items := j.items.shift k

def References.shift (k : Nat) (r : References) : References :=
  ⟨r.first.shift k, r.joins.map (Join.shift k)⟩

namespace Reading

variable (k start : Nat)

theorem reference_shift (items : List Item) :
    reference (k + start) items =
      (fun read => (read.1.shift k, read.2)) <$> reference start items := by
  simp only [reference, map_bind]
  refine bind_congr fun table => bind_congr fun aliasName => ?_
  rw [Nat.add_assoc]
  rfl

theorem clause_shift (after : Option Item) (room : Nat) (items : List Item) :
    clause after room (k + start) items =
      (fun read => (read.1.map (Join.Clause.shift k), read.2)) <$>
        clause after room start items := by
  cases items with
  | nil => rfl
  | cons i rest =>
      simp only [clause]
      split
      · simp only [map_bind]
        refine bind_congr fun tree => ?_
        rw [Nat.add_assoc, Nat.add_assoc]
        rfl
      · split
        · simp only [map_bind]
          exact bind_congr fun opening => bind_congr fun columns => bind_congr fun closing => rfl
        · rfl

theorem join_shift (after : Option Item) (room : Nat) (items : List Item) :
    join after room (k + start) items =
      (fun read => (read.1.shift k, read.2)) <$> join after room start items := by
  simp only [join]
  split
  · rfl
  · simp only [Nat.add_assoc k start, reference_shift k, clause_shift k, map_bind, bind_map_left]
    exact bind_congr fun table => bind_congr fun own => rfl

theorem joins_shift (after : Option Item) (room limit left : Nat) (items : List Item) :
    joins after room limit left (k + start) items =
      List.map (Join.shift k) <$> joins after room limit left start items := by
  induction left generalizing start items with
  | zero => cases items <;> rfl
  | succ left ih =>
      cases items with
      | nil => rfl
      | cons i rest =>
          simp only [joins, join_shift k, Nat.add_assoc, ih, map_bind, bind_map_left]
          exact bind_congr fun first => bind_congr fun more => rfl

end Reading

theorem References.parse_shift (k start room maxJoins : Nat) (items : List Item)
    (after : Option Item) :
    References.parse room maxJoins (k + start) items after =
      References.shift k <$> References.parse room maxJoins start items after := by
  have hfirst : ((fun read : Reference × Nat => (read.1.shift k, read.2)) <$>
        Reading.reference start items).mapError Failure.inLeftmost =
      (fun read => (read.1.shift k, read.2)) <$>
        (Reading.reference start items).mapError Failure.inLeftmost := by
    cases Reading.reference start items <;> rfl
  simp only [References.parse, Reading.reference_shift k, hfirst, Nat.add_assoc,
    Reading.joins_shift k, map_bind, bind_map_left]
  exact bind_congr fun first => bind_congr fun joins => rfl

section Plan

variable (catalog : Catalog) (k : Nat)

@[simp] theorem Reference.shift_target (r : Reference) :
    (r.shift k).target catalog = r.target catalog := rfl

theorem Walk.run_shift (first : Option Text) (w : Walk) (joins : List Join) :
    Walk.run catalog first w (joins.map (Join.shift k)) = Walk.run catalog first w joins := by
  induction joins generalizing w with
  | nil => rfl
  | cons j joins ih => simp [Walk.run, ih, Join.shift]

theorem References.shift_plan (r : References) : (r.shift k).plan catalog = r.plan catalog := by
  obtain ⟨first, joins⟩ := r
  cases joins with
  | nil => rfl
  | cons j joins =>
      have hrun := Walk.run_shift catalog k (first.target catalog) .start (j :: joins)
      simp only [References.plan, References.shift, List.map_cons, Reference.shift_target] at hrun ⊢
      rw [hrun]

end Plan

structure Level.Shows (l m : Level) (k n : Nat) : Prop where
  upTo : ∀ i, 0 < i → i ≤ n → l.upTo (k + i) = m.upTo i
  before : ∀ i, i < n → l.before (k + i) = m.before i
  itemsIn : ∀ i j, 0 < i → j ≤ n → l.itemsIn (k + i) (k + j) = m.itemsIn i j

section Edits

variable {l m : Level} {k n : Nat} (h : l.Shows m k n)

include h

theorem Level.Shows.stopOf {i : Nat} (hpos : 0 < i) (hle : i ≤ n) :
    l.stopOf (k + i) = m.stopOf i :=
  congrArg Text.byteSize (h.upTo i hpos hle)

theorem Level.Shows.startOf {i : Nat} (hlt : i < n) : l.startOf (k + i) = m.startOf i :=
  congrArg Text.byteSize (h.before i hlt)

variable {start : Nat}

theorem Join.leadingSpace_shift {j : Join} (hstart : j.items.start < n) :
    (j.shift k).leadingSpace l = j.leadingSpace m := by
  simp only [leadingSpace, shift, ItemRange.shift, h.before _ hstart]

theorem Join.keywordText_shift {j : Join} (hstart : 0 < j.keywordItems.start)
    (hstop : j.keywordItems.stop ≤ n) : (j.shift k).keywordText l = j.keywordText m := by
  simp only [keywordText, shift, ItemRange.shift, h.itemsIn _ _ hstart hstop]

theorem Join.ownCondition_shift {start : Nat} {items : List Item} {j : Join}
    (hspans : Join.Clause.Spans start items j.clause) (hstop : start + items.length ≤ n) :
    (j.shift k).ownCondition l = j.ownCondition m := by
  simp only [ownCondition, shift]
  generalize j.clause = clause at hspans
  cases hspans with
  | none | «using» => rfl
  | @on i cond tree _ _ =>
      have hin := h.itemsIn (start + 1) (start + 1 + cond.length) (by omega)
        (by rw [List.length_cons] at hstop; omega)
      simp only [Option.map_some, Join.Clause.shift, ItemRange.shift, hin]

theorem Join.edit_shift {start : Nat} {items : List Item} {j : Join} (hspans : j.Spans start items)
    (hstart : 0 < start) (hstop : start + items.length ≤ n) (column : Text) (targets : List Text) :
    (j.shift k).edit l column targets = j.edit m column targets := by
  obtain @⟨keyword, table, own, _, hkind, hkeyword, htable, hown, hitems⟩ := hspans
  have hne := List.length_pos_iff.2 hkind.ne_nil
  rw [List.length_append, List.length_append] at hstop hitems
  have hlead := leadingSpace_shift h (j := j) (by rw [hitems]; dsimp only; omega)
  have hword := keywordText_shift h (j := j) (by rw [hkeyword]; exact hstart)
    (by rw [hkeyword]; dsimp only; omega)
  have hcondition := ownCondition_shift h hown (by omega)
  have hbegin := h.startOf (i := start) (by omega)
  have hend := h.stopOf (i := start + (keyword.length + table.length + own.length)) (by omega) hstop
  have htables := h.itemsIn (start + keyword.length) (start + keyword.length + table.length)
    (by omega) (by omega)
  simp only [edit, hlead, hword, hcondition]
  simp only [shift, Reference.shift, ItemRange.shift, hitems, htable.range, hbegin, hend, htables]

theorem Join.ListSpans.edits_shift {start : Nat} {items : List Item} {js : List Join}
    (hspans : Join.ListSpans start items js) (hstart : 0 < start)
    (hstop : start + items.length ≤ n) (column : Text) (placed : List (List Text)) :
    ((((js.map (Join.shift k)).zip placed).filter fun pair => !pair.2.isEmpty).mapM fun pair =>
        pair.1.edit l column pair.2) =
      ((js.zip placed).filter fun pair => !pair.2.isEmpty).mapM fun pair =>
        pair.1.edit m column pair.2 := by
  induction hspans generalizing placed with
  | nil => rfl
  | @cons start items rest j js hfirst _ ih =>
      rw [List.length_append] at hstop
      cases placed with
      | nil => rfl
      | cons targets placed =>
          have hmore := ih (by omega) (by omega) placed
          have hedit := Join.edit_shift h hfirst hstart (by omega) column targets
          rw [List.map_cons, List.zip_cons_cons, List.zip_cons_cons]
          cases targets with
          | nil => exact hmore
          | cons target targets =>
              rw [List.filter_cons_of_pos (by rfl), List.filter_cons_of_pos (by rfl),
                List.mapM_cons, List.mapM_cons, hedit, hmore]

theorem References.edits_shift {r : References} {start : Nat} {head rest : List Item}
    (hspans : r.Spans start head rest) (hstart : 0 < start)
    (hstop : start + (head ++ rest).length ≤ n) (column : Text) (plan : FilterPlan) :
    (r.shift k).edits l column plan = r.edits m column plan := by
  rw [List.length_append] at hstop
  exact hspans.joins.edits_shift h (by omega) (by omega) column plan.joins

end Edits

end SoftDelete
