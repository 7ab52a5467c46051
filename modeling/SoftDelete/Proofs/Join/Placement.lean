import SoftDelete.Proofs.Join.Rows
import SoftDelete.Proofs.Join.Walk

namespace SoftDelete

variable {α : Type}

/-- The records of each table by its name as written, and of each sub-select by its place among the
references. -/
structure Database (α : Type) where
  named : Text → Multiset α
  derived : Nat → Multiset α

def Reference.records (db : Database α) (place : Nat) (r : Reference) : Multiset α :=
  match r.name with
  | some name => db.named name
  | none => db.derived place

def Database.live (catalog : Catalog) (alive : Text → α → Bool) (db : Database α) : Database α where
  named name :=
    if catalog.contains name then (db.named name).filter fun record => alive name record = true
    else db.named name
  derived := db.derived

def Join.rowsFrom (db : Database α) (on : Nat → Row α → Bool) (number : Nat)
    (left : Multiset (Row α)) : List Join → Multiset (Row α)
  | [] => left
  | join :: joins =>
      rowsFrom db on (number + 1)
        (join.kind.shape.rows (on number) (number + 1) left (join.table.records db (number + 1)))
        joins

def References.rows (db : Database α) (on : Nat → Row α → Bool) (r : References) :
    Multiset (Row α) :=
  Join.rowsFrom db on 0 ((r.first.records db 0).map fun record => [some record]) r.joins

/-- Whether the filter of the table visible as `target` holds of a row. Where the table has no
record its flag is null, and the filter holds. -/
def aliveAs (alive : Text → α → Bool) (target : Text) : List Reference → Row α → Bool
  | table :: tables, entry :: row =>
      if table.visibleName = some target then
        entry.all fun record => table.name.all fun name => alive name record
      else aliveAs alive target tables row
  | _, _ => true

def allAlive (alive : Text → α → Bool) (targets : List Text) (tables : List Reference)
    (row : Row α) : Bool :=
  targets.all fun target => aliveAs alive target tables row

def FilterPlan.on (plan : FilterPlan) (alive : Text → α → Bool) (tables : List Reference)
    (on : Nat → Row α → Bool) (number : Nat) (row : Row α) : Bool :=
  allAlive alive (plan.joins.getD number []) tables row && on number row

variable {alive : Text → α → Bool} {target : Text}

theorem aliveAs_append_left {tables : List Reference} {row : Row α} (rest : List Reference)
    (entries : Row α) (h : tables.length = row.length)
    (hin : ∃ table ∈ tables, table.visibleName = some target) :
    aliveAs alive target (tables ++ rest) (row ++ entries) = aliveAs alive target tables row := by
  induction tables generalizing row with
  | nil => simp at hin
  | cons table tables ih =>
      cases row with
      | nil => simp at h
      | cons entry row =>
          simp only [List.cons_append, aliveAs]
          split
          · rfl
          · rename_i hne
            apply ih (by simpa using h)
            simpa [hne] using hin

theorem aliveAs_append_right {tables : List Reference} {row : Row α} (rest : List Reference)
    (entries : Row α) (h : tables.length = row.length)
    (hout : ∀ table ∈ tables, table.visibleName ≠ some target) :
    aliveAs alive target (tables ++ rest) (row ++ entries) = aliveAs alive target rest entries := by
  induction tables generalizing row with
  | nil =>
      cases row with
      | nil => rfl
      | cons entry row => simp at h
  | cons table tables ih =>
      cases row with
      | nil => simp at h
      | cons entry row =>
          simp only [List.mem_cons, forall_eq_or_imp] at hout
          simp only [List.cons_append, aliveAs, hout.1, if_false]
          exact ih (by simpa using h) hout.2

theorem aliveAs_append_short {tables : List Reference} {row : Row α} (rest : List Reference)
    (h : row.length ≤ tables.length) :
    aliveAs alive target (tables ++ rest) row = aliveAs alive target tables row := by
  induction tables generalizing row with
  | nil =>
      obtain rfl : row = [] := by simpa using h
      cases rest <;> rfl
  | cons table tables ih =>
      cases row with
      | nil => rfl
      | cons entry row =>
          simp only [List.cons_append, aliveAs]
          split
          · rfl
          · exact ih (by simpa using h)

theorem allAlive_append (xs ys : List Text) (tables : List Reference) (row : Row α) :
    allAlive alive (xs ++ ys) tables row =
      (allAlive alive xs tables row && allAlive alive ys tables row) := by
  simp [allAlive]

theorem allAlive_perm {xs ys : List Text} (h : xs.Perm ys) (tables : List Reference)
    (row : Row α) : allAlive alive xs tables row = allAlive alive ys tables row := by
  rw [Bool.eq_iff_iff]
  simp [allAlive, h.mem_iff]

theorem allAlive_append_short {targets : List Text} {tables : List Reference} {row : Row α}
    (rest : List Reference) (h : row.length ≤ tables.length) :
    allAlive alive targets (tables ++ rest) row = allAlive alive targets tables row := by
  simp [allAlive, aliveAs_append_short rest h]

theorem records_live (catalog : Catalog) (db : Database α) (place : Nat) (table : Reference) :
    table.records (db.live catalog alive) place =
      (table.records db place).filter fun record =>
        allAlive alive (table.target catalog).toList [table] [some record] = true := by
  obtain ⟨name, aliasName, items⟩ := table
  cases name with
  | none => simp [Reference.records, Database.live, Reference.target, allAlive]
  | some name =>
      by_cases h : catalog.contains name = true
      · cases aliasName <;>
          simp [Reference.records, Database.live, Reference.target, Reference.visibleName,
            allAlive, aliveAs, h]
      · simp [Reference.records, Database.live, Reference.target, allAlive, h]

/-- The rows behind some joins, `left` with filters in the `ON` and `live` without deleted records:
what tells them apart is the filter of the pending table. -/
structure Tracks (alive : Text → α → Bool) (first : Option Text) (w : Walk)
    (seen : List Reference) (left live : Multiset (Row α)) : Prop where
  settled : w.Settled
  wide : ∀ row ∈ left, row.length = seen.length
  known : ∀ target ∈ w.pending first, ∃ table ∈ seen, table.visibleName = some target
  same : Row.keep (allAlive alive (w.pending first).toList seen) left = live

namespace Tracks

variable {catalog : Catalog} {first : Option Text} {w : Walk} {seen : List Reference}
  {left live : Multiset (Row α)} {table : Reference}

theorem allAlive_pending (t : Tracks alive first w seen left live) {row : Row α}
    (hrow : row.length = seen.length) (table : Reference) (entry : Option α) :
    allAlive alive (w.pending first).toList (seen ++ [table]) (row ++ [entry]) =
      allAlive alive (w.pending first).toList seen row := by
  cases hpending : w.pending first with
  | none => rfl
  | some target =>
      simp [allAlive, aliveAs_append_left [table] [entry] hrow.symm (t.known target hpending)]

theorem allAlive_joined {row : Row α} (hrow : row.length = seen.length) (entry : Option α)
    (hfresh : ∀ t ∈ seen, ∀ target ∈ table.visibleName, t.visibleName ≠ some target) :
    allAlive alive (table.target catalog).toList (seen ++ [table]) (row ++ [entry]) =
      allAlive alive (table.target catalog).toList [table] [entry] := by
  cases hjoined : table.target catalog with
  | none => rfl
  | some target =>
      have hout : ∀ t ∈ seen, t.visibleName ≠ some target := fun t ht =>
        hfresh t ht target (Reference.visibleName_of_target hjoined)
      simp [allAlive, aliveAs_append_right [table] [entry] hrow.symm hout]

theorem known_next (t : Tracks alive first w seen left live) (table : Reference)
    (shape : Join.Shape) :
    ∀ target ∈ (w.next first (table.target catalog) shape).pending first,
      ∃ t ∈ seen ++ [table], t.visibleName = some target := by
  intro target htarget
  cases shape with
  | inner =>
      rw [Walk.pending_next_inner t.settled] at htarget
      cases htarget
  | left =>
      rw [Walk.pending_next_left] at htarget
      obtain ⟨t', hmem, hname⟩ := t.known target htarget
      exact ⟨t', List.mem_append_left _ hmem, hname⟩
  | right =>
      rw [Walk.pending_next_right] at htarget
      exact ⟨table, by simp, Reference.visibleName_of_target htarget⟩

theorem step (t : Tracks alive first w seen left live) (db : Database α) (place : Nat)
    {on on' : Row α → Bool} (shape : Join.Shape)
    (hfresh : ∀ t ∈ seen, ∀ target ∈ table.visibleName, t.visibleName ≠ some target)
    (hon : ∀ row : Row α, row.length = seen.length + 1 →
      on' row = (allAlive alive (w.here first (table.target catalog) shape) (seen ++ [table]) row &&
        on row)) :
    Tracks alive first (w.next first (table.target catalog) shape) (seen ++ [table])
      (shape.rows on' seen.length left (table.records db place))
      (shape.rows on seen.length live (table.records (db.live catalog alive) place)) := by
  have hwide : ∀ row ∈ left, ∀ entry : Option α, (row ++ [entry]).length = seen.length + 1 :=
    fun row hrow entry => by simp [t.wide row hrow]
  refine ⟨Walk.settled_next t.settled _ _ _, ?_, t.known_next table shape, ?_⟩
  · intro row hrow
    simpa using Join.Shape.length_of_mem_rows t.wide hrow
  · rw [records_live, ← t.same]
    cases shape with
    | inner =>
        rw [Walk.pending_next_inner t.settled]
        apply (Row.keep_true fun row _ => rfl).trans
        apply Join.Shape.rows_inner
        intro row hrow record
        rw [hon _ (hwide row hrow _), allAlive_perm (Walk.here_inner t.settled _ _),
          allAlive_append, t.allAlive_pending (t.wide row hrow),
          allAlive_joined (t.wide row hrow) _ hfresh, Bool.and_assoc]
    | left =>
        rw [Walk.pending_next_left]
        apply Join.Shape.rows_left
        · intro row hrow record
          rw [hon _ (hwide row hrow _), Walk.here_left, allAlive_joined (t.wide row hrow) _ hfresh]
        · intro row hrow entry
          exact t.allAlive_pending (t.wide row hrow) table entry
    | right =>
        rw [Walk.pending_next_right]
        apply Join.Shape.rows_right
        · intro row hrow record
          rw [hon _ (hwide row hrow _), Walk.here_right t.settled,
            t.allAlive_pending (t.wide row hrow)]
        · intro row hrow record
          exact allAlive_joined (t.wide row hrow) _ hfresh
        · intro record
          exact allAlive_joined (by simp) _ hfresh

theorem run (t : Tracks alive first w seen left live) (db : Database α) (joins : List Join)
    {on on' : Nat → Row α → Bool} {number : Nat} (hnumber : seen.length = number + 1)
    (hnames : ((seen ++ joins.map Join.table).filterMap Reference.visibleName).Nodup)
    (hon : ∀ k row, on' (number + k) row =
      (allAlive alive ((Walk.run catalog first w joins).1.getD k []) (seen ++ joins.map Join.table)
        row && on (number + k) row)) :
    Row.keep (allAlive alive ((Walk.final catalog first w joins).pending first).toList
        (seen ++ joins.map Join.table)) (Join.rowsFrom db on' number left joins) =
      Join.rowsFrom (db.live catalog alive) on number live joins := by
  -- Each join adds its table to what is seen, and `Tracks` is what it preserves.
  induction joins generalizing w seen left live number with
  | nil => simpa [Walk.final, Join.rowsFrom] using t.same
  | cons join joins ih =>
      have hfresh : ∀ s ∈ seen, ∀ target ∈ join.table.visibleName,
          s.visibleName ≠ some target := by
        intro s hs target htarget hsame
        rw [List.filterMap_append, List.nodup_append] at hnames
        apply hnames.2.2 target (List.mem_filterMap.2 ⟨s, hs, hsame⟩) target _ rfl
        exact List.mem_filterMap.2 ⟨join.table, by simp, htarget⟩
      have hlist : seen ++ (join :: joins).map Join.table =
          seen ++ [join.table] ++ joins.map Join.table := by simp
      rw [hlist] at hnames hon ⊢
      have hhere : ∀ row : Row α, row.length = seen.length + 1 →
          on' number row = (allAlive alive (w.here first (join.table.target catalog)
            join.kind.shape) (seen ++ [join.table]) row && on number row) := by
        intro row hrow
        have h := hon 0 row
        simp only [Nat.add_zero, Walk.run, List.getD_cons_zero] at h
        rw [h, allAlive_append_short _ (by simp [hrow])]
      have hstep := t.step db (number + 1) join.kind.shape hfresh hhere
      have hlater : ∀ k row, on' (number + 1 + k) row =
          (allAlive alive ((Walk.run catalog first (w.next first (join.table.target catalog)
            join.kind.shape) joins).1.getD k []) (seen ++ [join.table] ++ joins.map Join.table)
            row && on (number + 1 + k) row) := by
        intro k row
        have h := hon (k + 1) row
        rw [← Nat.add_assoc, Nat.add_right_comm] at h
        simpa only [Walk.run, List.getD_cons_succ] using h
      rw [hnumber] at hstep
      exact ih hstep (by simp [hnumber]) hnames hlater

theorem start (catalog : Catalog) (first : Reference) (db : Database α) :
    Tracks alive (first.target catalog) .start [first]
      ((first.records db 0).map fun record => [some record])
      ((first.records (db.live catalog alive) 0).map fun record => [some record]) := by
  refine ⟨Walk.settled_start, ?_, ?_, ?_⟩
  · intro row hrow
    obtain ⟨record, _, rfl⟩ := Multiset.mem_map.1 hrow
    rfl
  · intro target htarget
    exact ⟨first, by simp, Reference.visibleName_of_target htarget⟩
  · rw [records_live, Row.keep, Multiset.filter_map]
    rfl

end Tracks

/-- The filters of the plan have the meaning of a database without deleted records, whatever the
user joins by and whichever records are deleted. -/
theorem rows_of_plan (catalog : Catalog) (r : References) (db : Database α)
    (alive : Text → α → Bool) (on : Nat → Row α → Bool)
    (hnames : (r.tables.filterMap Reference.visibleName).Nodup) :
    Row.keep (allAlive alive (r.plan catalog).carried.toList r.tables)
        (r.rows db ((r.plan catalog).on alive r.tables on)) =
      r.rows (db.live catalog alive) on := by
  have hon : ∀ k row, (r.plan catalog).on alive r.tables on (0 + k) row =
      (allAlive alive ((Walk.run catalog (r.first.target catalog) .start r.joins).1.getD k [])
        ([r.first] ++ r.joins.map Join.table) row && on (0 + k) row) := by
    intro k row
    rw [FilterPlan.on, References.plan_eq, Nat.zero_add]
    rfl
  have h := (Tracks.start catalog r.first db).run db r.joins rfl hnames hon
  rw [References.plan_eq] at h ⊢
  exact h

def leftThenRight : References where
  first := ⟨some "hist_a".toList, some ['a'], ⟨0, 2⟩⟩
  joins := [
    ⟨.left, ⟨some "hist_b".toList, some ['b'], ⟨4, 6⟩⟩, none, ⟨2, 4⟩, ⟨2, 6⟩⟩,
    ⟨.right, ⟨some "hist_c".toList, none, ⟨8, 9⟩⟩, none, ⟨6, 8⟩, ⟨6, 9⟩⟩]

theorem rows_of_plan_leftThenRight :
    (leftThenRight.tables.filterMap Reference.visibleName).Nodup ∧
      let catalog : Catalog := ⟨["hist_a".toList, "hist_b".toList, "hist_c".toList]⟩
      let db : Database Nat := ⟨fun _ => {0, 1}, fun _ => 0⟩
      let alive : Text → Nat → Bool := fun _ flag => flag == 0
      let on : Nat → Row Nat → Bool := fun _ _ => true
      Row.keep (allAlive alive (leftThenRight.plan catalog).carried.toList leftThenRight.tables)
          (leftThenRight.rows db ((leftThenRight.plan catalog).on alive leftThenRight.tables on)) =
        leftThenRight.rows (db.live catalog alive) on :=
  ⟨by decide, rows_of_plan _ leftThenRight _ _ _ (by decide)⟩

end SoftDelete
