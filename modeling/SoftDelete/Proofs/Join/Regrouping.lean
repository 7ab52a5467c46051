import SoftDelete.Join.Filter
import SoftDelete.Proofs.Join.Groups
import SoftDelete.Proofs.Join.Sides

namespace SoftDelete

variable {α : Type}

namespace Join

def Kind.written : Join.Kind → Join.Kind
  | .comma => .inner
  | kind => kind

def rebuilt (j : Join) (targets : List Text) : Join :=
  if targets.isEmpty then j else { j with kind := j.kind.written }

variable {j : Join} {targets : List Text}

@[simp] theorem table_rebuilt : (j.rebuilt targets).table = j.table := by
  unfold rebuilt
  split <;> rfl

@[simp] theorem shape_rebuilt : (j.rebuilt targets).kind.shape = j.kind.shape := by
  unfold rebuilt
  split
  · rfl
  · cases j.kind <;> rfl

theorem kind_rebuilt : (j.rebuilt targets).kind = .comma ↔ j.kind = .comma ∧ targets = [] := by
  unfold rebuilt
  split
  · rename_i h
    simp [List.isEmpty_iff.1 h]
  · rename_i h
    have hne : targets ≠ [] := by simpa using h
    cases hkind : j.kind <;> simp [Kind.written, hne]

end Join

namespace References

variable {catalog : Catalog} {r : References} {k : Nat} {j : Join} {target : Text}

def rebuilt (catalog : Catalog) (r : References) : References :=
  { r with joins := List.zipWith Join.rebuilt r.joins (r.plan catalog).joins }

theorem rebuilt_length : (r.rebuilt catalog).joins.length = r.joins.length := by
  simp [rebuilt, plan_joins_length]

theorem rebuilt_getElem? (h : r.joins[k]? = some j) :
    (r.rebuilt catalog).joins[k]? = some (j.rebuilt (r.targetsAt catalog k j)) := by
  have hplan : (r.plan catalog).joins[k]? = some (r.targetsAt catalog k j) := plan_getElem? h
  simp [rebuilt, List.getElem?_zipWith, h, hplan]

theorem groupStart_rebuilt (h : r.joins[k]? = some j) :
    (r.rebuilt catalog).groupStart (k + 1) =
      if j.kind = .comma ∧ r.targetsAt catalog k j = [] then k + 1
      else (r.rebuilt catalog).groupStart k := by
  simp only [groupStart_succ (rebuilt_getElem? h), Join.kind_rebuilt]

/-- The group of every right join begins with the same table as before. -/
def KeepsRightGroups (catalog : Catalog) (r : References) : Prop :=
  ∀ (k : Nat) (j : Join), r.joins[k]? = some j → j.kind.shape = .right →
    (r.rebuilt catalog).groupStart (k + 1) = r.groupStart (k + 1)

theorem shape_of_comma (h : j.kind = .comma) : j.kind.shape = .inner := by
  rw [h]
  rfl

theorem pending_of_unfiltered (hkind : j.kind = .comma) (h : r.targetsAt catalog k j = []) :
    (r.walkTo catalog k).pending (r.first.target catalog) = none ∧
      j.table.target catalog = none := by
  have hsettled : (r.walkTo catalog k).Settled := settled_walkTo
  have hperm := Walk.here_inner hsettled (r.first.target catalog) (j.table.target catalog)
  rw [targetsAt, shape_of_comma hkind] at h
  rw [h] at hperm
  simpa using hperm.symm.eq_nil

theorem exists_in_group_succ (hj : r.joins[k]? = some j)
    (hstart : (r.rebuilt catalog).groupStart (k + 1) = (r.rebuilt catalog).groupStart k)
    (hpending : target ∈ (r.walkTo catalog k).pending (r.first.target catalog) →
      ∃ table ∈ (r.tablesTo k).drop ((r.rebuilt catalog).groupStart k),
        target ∈ table.target catalog)
    (h : target ∈ (r.walkTo catalog k).pending (r.first.target catalog) ∨
      target ∈ j.table.target catalog) :
    ∃ table ∈ (r.tablesTo (k + 1)).drop ((r.rebuilt catalog).groupStart (k + 1)),
      target ∈ table.target catalog := by
  have hk : k < r.joins.length := (List.getElem?_eq_some_iff.1 hj).1
  have hle : (r.rebuilt catalog).groupStart k ≤ (r.tablesTo k).length := by
    have hlength : (r.tablesTo k).length = k + 1 := by simp [tablesTo, hk.le]
    have := (r.rebuilt catalog).groupStart_le k
    omega
  rw [hstart, tablesTo_succ hj, List.drop_append_of_le_length hle]
  rcases h with hfirst | hjoined
  · obtain ⟨table, hmem, htable⟩ := hpending hfirst
    exact ⟨table, List.mem_append_left _ hmem, htable⟩
  · exact ⟨j.table, by simp, hjoined⟩

theorem exists_in_group_of_pending (hk : k ≤ r.joins.length)
    (h : target ∈ (r.walkTo catalog k).pending (r.first.target catalog)) :
    ∃ table ∈ (r.tablesTo k).drop ((r.rebuilt catalog).groupStart k),
      target ∈ table.target catalog := by
  induction k with
  | zero => exact ⟨r.first, by simp [groupStart, tablesTo], h⟩
  | succ k ih =>
      obtain ⟨j, hj⟩ : ∃ j, r.joins[k]? = some j := ⟨_, List.getElem?_eq_getElem hk⟩
      rw [walkTo_succ hj] at h
      by_cases hkind : j.kind = .comma
      · rw [shape_of_comma hkind, Walk.pending_next_inner settled_walkTo] at h
        cases h
      · have hstart : (r.rebuilt catalog).groupStart (k + 1) = _ := groupStart_rebuilt hj
        rw [if_neg fun hcomma => hkind hcomma.1] at hstart
        exact exists_in_group_succ hj hstart (ih (Nat.le_of_succ_le hk))
          (Walk.mem_of_mem_here settled_walkTo (.inr h))

theorem exists_in_group (hj : r.joins[k]? = some j) (h : target ∈ r.targetsAt catalog k j) :
    ∃ table ∈ (r.tablesTo (k + 1)).drop ((r.rebuilt catalog).groupStart (k + 1)),
      target ∈ table.target catalog := by
  have hk : k < r.joins.length := (List.getElem?_eq_some_iff.1 hj).1
  have hstart : (r.rebuilt catalog).groupStart (k + 1) = _ := groupStart_rebuilt hj
  rw [if_neg fun hcomma => List.ne_nil_of_mem h hcomma.2] at hstart
  exact exists_in_group_succ hj hstart (exists_in_group_of_pending hk.le)
    (Walk.mem_of_mem_here settled_walkTo (.inl h))

end References

open Row References

theorem FilterPlan.on_eq {catalog : Catalog} {r : References} {k : Nat} {j : Join}
    (hj : r.joins[k]? = some j) (alive : Text → α → Bool) (on : Nat → Row α → Bool) {row : Row α}
    (hrow : row.length = k + 2) :
    (r.plan catalog).on alive r.tables on k row =
      (allAlive alive (r.targetsAt catalog k j) (r.tablesTo k ++ [j.table]) row && on k row) := by
  have hk : k < r.joins.length := (List.getElem?_eq_some_iff.1 hj).1
  have hlength : row.length ≤ (r.tablesTo (k + 1)).length := by
    simp [tablesTo, hrow, Nat.succ_le_of_lt hk]
  rw [FilterPlan.on, List.getD_eq_getElem?_getD, plan_getElem? hj, Option.getD_some,
    r.tables_eq (k + 1), allAlive_append_short _ hlength, tablesTo_succ hj]

/-- The rebuilt references up to some join, beside the given ones over the live records. `middle` are
the rows of the groups that stand in the last group of the rebuilt ones in front of the last group
of the given ones. -/
structure Regrouped (catalog : Catalog) (alive : Text → α → Bool) (r : References) (k : Nat)
    (middle : Multiset (Row α)) (s' s : Listing α) : Prop where
  number : s'.number = k ∧ s.number = k
  start_le : s'.start ≤ s.start ∧ s.start ≤ k
  wideFront : ∀ row ∈ s'.front, row.length = s'.start
  wideMiddle : ∀ row ∈ middle, s'.start + row.length = s.start
  wideGroup : ∀ row ∈ s.group, s.start + row.length = k + 1
  front_eq : s.front = cross s'.front middle
  unmerged : s'.start = s.start → middle = {[]}
  tracks : Tracks alive (r.first.target catalog) (r.walkTo catalog k) (r.tablesTo k)
    (cross {blank s'.start} s'.group) (cross {blank s'.start} (cross middle s.group))

namespace Regrouped

variable {catalog : Catalog} {alive : Text → α → Bool} {r : References} {k : Nat} {j : Join}
  {middle : Multiset (Row α)} {s' s : Listing α} {db : Database α} {on : Nat → Row α → Bool}

theorem wide_product (t : Regrouped catalog alive r k middle s' s) :
    ∀ row ∈ cross middle s.group, s'.start + row.length = k + 1 := by
  intro row hrow
  obtain ⟨m, hm, g, hg, rfl⟩ := mem_cross.1 hrow
  have := t.wideMiddle m hm
  have := t.wideGroup g hg
  rw [List.length_append]
  omega

theorem rows_live (t : Regrouped catalog alive r k middle s' s) {shape : Join.Shape}
    {records : Multiset α}
    (hon : ∀ f g : Row α, ∀ entry, f.length = s.start → f.length + g.length = k + 1 →
      on k (f ++ (g ++ [entry])) = behind s.start (on k) (g ++ [entry]))
    (hright : shape = .right → s'.start = s.start) :
    shape.rows (on k) (k + 1) (cross {blank s'.start} (cross middle s.group)) records =
      cross {blank s'.start} (cross middle
        (shape.rows (behind s.start (on k)) (k + 1 - s.start) s.group records)) := by
  have hwidth : s.start + (k + 1 - s.start) = k + 1 := by
    have := t.start_le
    omega
  rw [← cross_assoc, ← cross_assoc]
  apply Join.Shape.rows_cross hwidth
  · intro f hf g hg record
    obtain ⟨b, hb, m, hm, rfl⟩ := mem_cross.1 hf
    obtain rfl := Multiset.mem_singleton.1 hb
    have hlength : (blank s'.start ++ m : Row α).length = s.start := by
      simpa [blank] using t.wideMiddle m hm
    exact hon _ g _ hlength (by rw [hlength, t.wideGroup g hg])
  · intro hshape
    rw [t.unmerged (hright hshape), cross_unit, hright hshape]

theorem tracks_rows (t : Regrouped catalog alive r k middle s' s) (db : Database α)
    (on : Nat → Row α → Bool) (hj : r.joins[k]? = some j)
    (hnames : (r.tables.filterMap Reference.visibleName).Nodup) :
    Tracks alive (r.first.target catalog) (r.walkTo catalog (k + 1)) (r.tablesTo (k + 1))
      (cross {blank s'.start} (j.kind.shape.rows
        (behind s'.start ((r.plan catalog).on alive r.tables on k)) (k + 1 - s'.start) s'.group
        (j.table.records db (k + 1))))
      (j.kind.shape.rows (on k) (k + 1) (cross {blank s'.start} (cross middle s.group))
        (j.table.records (db.live catalog alive) (k + 1))) := by
  have hk : k < r.joins.length := (List.getElem?_eq_some_iff.1 hj).1
  have hlength : (r.tablesTo k).length = k + 1 := by simp [tablesTo, hk.le]
  have hwidth : s'.start + (k + 1 - s'.start) = k + 1 := by
    have := t.start_le
    omega
  have hfresh : ∀ table ∈ r.tablesTo k, ∀ target ∈ j.table.visibleName,
      table.visibleName ≠ some target := fun table hmem target hown htable =>
    not_visible_of_mem_tablesTo hj hnames hmem htable hown
  have hstep := t.tracks.step db (k + 1) j.kind.shape hfresh fun row hrow =>
    FilterPlan.on_eq hj alive on (by rw [hrow, hlength])
  rw [← walkTo_succ hj, ← tablesTo_succ hj, hlength] at hstep
  have hpadded (on : Row α → Bool) (records : Multiset α) :
      j.kind.shape.rows on (k + 1) (cross {blank s'.start} s'.group) records =
        cross {blank s'.start}
          (j.kind.shape.rows (behind s'.start on) (k + 1 - s'.start) s'.group records) :=
    Join.Shape.rows_cross hwidth
      (fun f hf _ _ _ => by rw [Multiset.mem_singleton.1 hf]; rfl) fun _ => rfl
  rwa [hpadded] at hstep

theorem join_group (t : Regrouped catalog alive r k middle s' s) (hj : r.joins[k]? = some j)
    (hnames : (r.tables.filterMap Reference.visibleName).Nodup) (hkind : j.kind ≠ .comma)
    (hon : ∀ f g : Row α, ∀ entry, f.length = s.start → f.length + g.length = k + 1 →
      on k (f ++ (g ++ [entry])) = behind s.start (on k) (g ++ [entry]))
    (hright : j.kind.shape = .right → s'.start = s.start) :
    Regrouped catalog alive r (k + 1) middle
      (s'.join db ((r.plan catalog).on alive r.tables on) (j.rebuilt (r.targetsAt catalog k j)))
      (s.join (db.live catalog alive) on j) := by
  have hwritten : (j.rebuilt (r.targetsAt catalog k j)).kind ≠ .comma := fun hcomma =>
    hkind (Join.kind_rebuilt.1 hcomma).1
  have htracks := t.tracks_rows db on hj hnames
  rw [t.rows_live hon hright] at htracks
  obtain ⟨hnumber', hnumber⟩ := t.number
  have hgroup : ∀ row ∈ s.group, row.length = k + 1 - s.start := fun row hrow => by
    have := t.wideGroup row hrow
    omega
  rw [Listing.join_of_ne_comma hwritten, Listing.join_of_ne_comma hkind, hnumber', hnumber,
    Join.shape_rebuilt, Join.table_rebuilt]
  refine ⟨⟨rfl, rfl⟩, ⟨t.start_le.1, t.start_le.2.trans (Nat.le_succ k)⟩, t.wideFront,
    t.wideMiddle, ?_, t.front_eq, t.unmerged, htracks⟩
  intro row hrow
  have := Join.Shape.length_of_mem_rows hgroup hrow
  have := t.start_le
  dsimp only
  omega

theorem join_filtered_comma (t : Regrouped catalog alive r k middle s' s)
    (hj : r.joins[k]? = some j) (hnames : (r.tables.filterMap Reference.visibleName).Nodup)
    (hkind : j.kind = .comma) (htargets : r.targetsAt catalog k j ≠ [])
    (hon : ∀ f g : Row α, ∀ entry, f.length = k + 1 → f.length + g.length = k + 1 →
      on k (f ++ (g ++ [entry])) = behind (k + 1) (on k) (g ++ [entry])) :
    Regrouped catalog alive r (k + 1) (cross middle s.group)
      (s'.join db ((r.plan catalog).on alive r.tables on) (j.rebuilt (r.targetsAt catalog k j)))
      (s.join (db.live catalog alive) on j) := by
  have hwritten : (j.rebuilt (r.targetsAt catalog k j)).kind ≠ .comma := fun hcomma =>
    htargets (Join.kind_rebuilt.1 hcomma).2
  have htracks := t.tracks_rows db on hj hnames
  have hproduct : Join.Shape.inner.rows (on k) (k + 1)
        (cross {blank s'.start} (cross middle s.group))
        (j.table.records (db.live catalog alive) (k + 1)) =
      cross {blank s'.start} (cross (cross middle s.group)
        (keep (behind (k + 1) (on k))
          ((j.table.records (db.live catalog alive) (k + 1)).map fun record => [some record]))) := by
    rw [← cross_assoc _ (cross middle s.group)]
    apply Join.Shape.rows_inner_record
    intro row hrow record
    obtain ⟨b, hb, m, hm, rfl⟩ := mem_cross.1 hrow
    obtain rfl := Multiset.mem_singleton.1 hb
    have hlength : (blank s'.start ++ m : Row α).length = k + 1 := by
      simpa [blank] using t.wide_product m hm
    exact hon _ [] _ hlength (by simpa using hlength)
  obtain ⟨hnumber', hnumber⟩ := t.number
  rw [shape_of_comma hkind, hproduct] at htracks
  rw [Listing.join_of_ne_comma hwritten, Listing.join_of_comma hkind, hnumber', hnumber,
    Join.shape_rebuilt, Join.table_rebuilt, shape_of_comma hkind]
  have hle := t.start_le
  refine ⟨⟨rfl, rfl⟩, ⟨by dsimp only; omega, Nat.le_refl _⟩, t.wideFront, t.wide_product, ?_, ?_,
    ?_, htracks⟩
  · intro row hrow
    obtain ⟨record, rfl⟩ := exists_record (Multiset.mem_of_mem_filter hrow)
    rfl
  · rw [t.front_eq, cross_assoc]
  · intro hstart
    dsimp only at hstart
    omega

theorem join_kept_comma (t : Regrouped catalog alive r k middle s' s)
    (hj : r.joins[k]? = some j) (hkind : j.kind = .comma)
    (htargets : r.targetsAt catalog k j = []) :
    Regrouped catalog alive r (k + 1) {[]}
      (s'.join db ((r.plan catalog).on alive r.tables on) (j.rebuilt (r.targetsAt catalog k j)))
      (s.join (db.live catalog alive) on j) := by
  have hwritten : (j.rebuilt (r.targetsAt catalog k j)).kind = .comma :=
    Join.kind_rebuilt.2 ⟨hkind, htargets⟩
  obtain ⟨hpending, htarget⟩ := pending_of_unfiltered hkind htargets
  have hgroup : s'.group = cross middle s.group := by
    have hsame := t.tracks.same
    rw [hpending] at hsame
    exact singleton_cross_injective _ ((keep_true fun _ _ => rfl).symm.trans hsame)
  have hrecords : j.table.records (db.live catalog alive) (k + 1) =
      j.table.records db (k + 1) := by
    rw [records_live, htarget]
    exact Multiset.filter_eq_self.2 fun record _ => rfl
  have hrows : keep (behind (k + 1) ((r.plan catalog).on alive r.tables on k))
        ((j.table.records db (k + 1)).map fun record => [some record]) =
      keep (behind (k + 1) (on k))
        ((j.table.records db (k + 1)).map fun record => [some record]) := by
    refine Multiset.filter_congr fun row hrow => ?_
    obtain ⟨record, rfl⟩ := exists_record hrow
    rw [behind, FilterPlan.on_eq hj alive on (by simp [blank]), htargets]
    rfl
  obtain ⟨hnumber', hnumber⟩ := t.number
  rw [Listing.join_of_comma hwritten, Listing.join_of_comma hkind, hnumber', hnumber,
    Join.table_rebuilt, hrecords, hrows]
  have hk : k < r.joins.length := (List.getElem?_eq_some_iff.1 hj).1
  have hwide : ∀ row ∈ keep (behind (k + 1) (on k))
      ((j.table.records db (k + 1)).map fun record => [some record]), row.length = 1 := by
    intro row hrow
    obtain ⟨record, rfl⟩ := exists_record (Multiset.mem_of_mem_filter hrow)
    rfl
  have hnext : (r.walkTo catalog (k + 1)).pending (r.first.target catalog) = none := by
    rw [walkTo_succ hj, shape_of_comma hkind, Walk.pending_next_inner settled_walkTo]
  refine ⟨⟨rfl, rfl⟩, ⟨Nat.le_refl _, Nat.le_refl _⟩, ?_, ?_, ?_, ?_, fun _ => rfl, ?_⟩
  · rw [hgroup]
    intro row hrow
    obtain ⟨f, hf, m, hm, rfl⟩ := mem_cross.1 hrow
    rw [List.length_append, t.wideFront f hf, t.wide_product m hm]
  · intro row hrow
    rw [Multiset.mem_singleton.1 hrow]
    rfl
  · intro row hrow
    rw [hwide row hrow]
  · rw [cross_unit, t.front_eq, cross_assoc, hgroup]
  · rw [unit_cross]
    refine ⟨settled_walkTo, ?_, ?_, ?_⟩
    · have hlength : (r.tablesTo (k + 1)).length = k + 1 + 1 := by
        simp [tablesTo, Nat.succ_le_of_lt hk]
      rw [hlength]
      exact length_of_mem_cross (fun row hrow => by simp [Multiset.mem_singleton.1 hrow, blank])
        hwide
    · intro target htarget
      rw [hnext] at htarget
      cases htarget
    · rw [hnext]
      exact keep_true fun _ _ => rfl

end Regrouped

namespace References

variable (catalog : Catalog) (r : References) (db : Database α) (alive : Text → α → Bool)
  (on : Nat → Row α → Bool)

theorem regrouped_start :
    Regrouped catalog alive r 0 {[]}
      ((r.rebuilt catalog).listingTo db ((r.plan catalog).on alive r.tables on) 0)
      (r.listingTo (db.live catalog alive) on 0) := by
  have hblank : ∀ rows : Multiset (Row α), cross {blank 0} rows = rows := unit_cross
  refine ⟨⟨rfl, rfl⟩, ⟨Nat.le_refl _, Nat.le_refl _⟩, ?_, ?_, ?_, ?_, fun _ => rfl, ?_⟩
  · intro row hrow
    rw [Multiset.mem_singleton.1 hrow]
    rfl
  · intro row hrow
    rw [Multiset.mem_singleton.1 hrow]
    rfl
  · intro row hrow
    obtain ⟨record, rfl⟩ := exists_record hrow
    rfl
  · exact (cross_unit _).symm
  · rw [unit_cross]
    change Tracks alive (r.first.target catalog) .start [r.first] (cross {blank 0} _)
      (cross {blank 0} _)
    rw [hblank, hblank]
    exact Tracks.start catalog r.first db

theorem exists_regrouped (hnames : (r.tables.filterMap Reference.visibleName).Nodup)
    (hlocal : r.OwnGroups on) (hright : r.KeepsRightGroups catalog) {k : Nat}
    (hk : k ≤ r.joins.length) :
    ∃ middle, Regrouped catalog alive r k middle
      ((r.rebuilt catalog).listingTo db ((r.plan catalog).on alive r.tables on) k)
      (r.listingTo (db.live catalog alive) on k) := by
  induction k with
  | zero => exact ⟨{[]}, regrouped_start catalog r db alive on⟩
  | succ k ih =>
      obtain ⟨j, hj⟩ : ∃ j, r.joins[k]? = some j := ⟨_, List.getElem?_eq_getElem hk⟩
      obtain ⟨middle, t⟩ := ih (Nat.le_of_succ_le hk)
      have hstart := (r.listingTo_place (db.live catalog alive) on (Nat.le_of_succ_le hk)).2
      have hstart' := ((r.rebuilt catalog).listingTo_place db
        ((r.plan catalog).on alive r.tables on) (k := k)
        (by rw [rebuilt_length]; exact Nat.le_of_succ_le hk)).2
      rw [listingTo_succ (rebuilt_getElem? hj), listingTo_succ hj]
      by_cases hkind : j.kind = .comma
      · by_cases htargets : r.targetsAt catalog k j = []
        · exact ⟨_, t.join_kept_comma hj hkind htargets⟩
        · refine ⟨_, t.join_filtered_comma hj hnames hkind htargets ?_⟩
          intro f g entry hf hlength
          have hgroup : r.groupStart (k + 1) = k + 1 := by rw [groupStart_succ hj, if_pos hkind]
          have hsame : on k (f ++ (g ++ [entry])) = _ :=
            hlocal.behind hk (hf.trans hgroup.symm) hlength
          rwa [hgroup] at hsame
      · have hgroup : r.groupStart (k + 1) = r.groupStart k := by
          rw [groupStart_succ hj, if_neg hkind]
        have hgroup' : (r.rebuilt catalog).groupStart (k + 1) =
            (r.rebuilt catalog).groupStart k := by
          rw [groupStart_rebuilt hj, if_neg fun hcomma => hkind hcomma.1]
        refine ⟨_, t.join_group hj hnames hkind ?_ ?_⟩
        · intro f g entry hf hlength
          have hsame : on k (f ++ (g ++ [entry])) = _ :=
            hlocal.behind hk (hf.trans (hstart.trans hgroup.symm)) hlength
          rwa [hgroup, ← hstart] at hsame
        · intro hshape
          rw [hstart, hstart', ← hgroup, ← hgroup']
          exact hright k j hj hshape

theorem allAlive_behind {alive : Text → α → Bool} {tables : List Reference}
    (hnames : (tables.filterMap Reference.visibleName).Nodup) {start : Nat}
    (hstart : start ≤ tables.length) {pending : Option Text}
    (hnear : ∀ target ∈ pending, ∃ table ∈ tables.drop start, table.visibleName = some target)
    {f : Row α} (hf : f.length = start) (g : Row α) :
    allAlive alive pending.toList tables (f ++ g) =
      behind start (allAlive alive pending.toList tables) g := by
  cases hpending : pending with
  | none => rfl
  | some target =>
      obtain ⟨table, hmem, htable⟩ := hnear target hpending
      have hout : ∀ other ∈ tables.take start, other.visibleName ≠ some target := by
        intro other hother hsame
        rw [← List.take_append_drop start tables, List.filterMap_append,
          List.nodup_append] at hnames
        exact hnames.2.2 target (List.mem_filterMap.2 ⟨other, hother, hsame⟩) target
          (List.mem_filterMap.2 ⟨table, hmem, htable⟩) rfl
      have hskip : ∀ front : Row α, front.length = start →
          allAlive alive [target] tables (front ++ g) =
            allAlive alive [target] (tables.drop start) g := by
        intro front hfront
        have hlength : (tables.take start).length = front.length := by
          rw [List.length_take_of_le hstart, hfront]
        have hright : aliveAs alive target (tables.take start ++ tables.drop start) _ = _ :=
          aliveAs_append_right (tables.drop start) g hlength hout
        rw [List.take_append_drop] at hright
        simp [allAlive, hright]
      have hblank : (blank start : Row α).length = start := List.length_replicate
      rw [Option.toList_some, behind, hskip f hf, hskip _ hblank]

theorem tablesTo_length (r : References) : r.tablesTo r.joins.length = r.tables := by
  simp [tablesTo, tables]

theorem plan_carried (catalog : Catalog) (r : References) :
    (r.plan catalog).carried =
      (r.walkTo catalog r.joins.length).pending (r.first.target catalog) := by
  rw [plan_eq, walkTo, List.take_length]

/-- The filters of the plan have the meaning of a database without deleted records also where a comma
binds weaker than the other joins, unless a comma with filters opens a group with a right join.
What an `ON` filters is in the group of the join. -/
theorem listRows_of_plan (hnames : (r.tables.filterMap Reference.visibleName).Nodup)
    (hlocal : r.OwnGroups on) (hright : r.KeepsRightGroups catalog) :
    Row.keep (allAlive alive (r.plan catalog).carried.toList r.tables)
        ((r.rebuilt catalog).listRows db ((r.plan catalog).on alive r.tables on)) =
      r.listRows (db.live catalog alive) on ∧
    ∀ (k : Nat) (targets : List Text), (r.plan catalog).joins[k]? = some targets →
      ∀ target ∈ targets, ∃ table ∈
        (r.tablesTo (k + 1)).drop ((r.rebuilt catalog).groupStart (k + 1)),
        table.visibleName = some target := by
  constructor
  · obtain ⟨middle, t⟩ := exists_regrouped catalog r db alive on hnames hlocal hright
      (Nat.le_refl _)
    have hsame := t.tracks.same
    rw [tablesTo_length, ← plan_carried] at hsame
    have hstart := ((r.rebuilt catalog).listingTo_place db
      ((r.plan catalog).on alive r.tables on) (by rw [rebuilt_length])).2
    have hle := (r.rebuilt catalog).groupStart_le r.joins.length
    rw [listRows, listRows, rebuilt_length]
    generalize (r.rebuilt catalog).listingTo db ((r.plan catalog).on alive r.tables on)
      r.joins.length = s' at t hsame hstart
    generalize r.listingTo (db.live catalog alive) on r.joins.length = s at t hsame
    have hbehind : ∀ f g : Row α, f.length = s'.start →
        allAlive alive (r.plan catalog).carried.toList r.tables (f ++ g) =
          behind s'.start (allAlive alive (r.plan catalog).carried.toList r.tables) g := by
      intro f g hf
      rw [hstart] at hf ⊢
      refine allAlive_behind hnames (by simpa [tables] using Nat.le_succ_of_le hle) ?_ hf g
      intro target htarget
      rw [plan_carried] at htarget
      obtain ⟨table, hmem, htable⟩ := exists_in_group_of_pending (Nat.le_refl _) htarget
      rw [tablesTo_length] at hmem
      exact ⟨table, hmem, Reference.visibleName_of_target htable⟩
    have hgroup : keep (behind s'.start (allAlive alive (r.plan catalog).carried.toList r.tables))
        s'.group = cross middle s.group := by
      apply singleton_cross_injective (blank s'.start)
      rw [← hsame]
      refine (keep_cross fun f hf g _ => ?_).symm
      rw [Multiset.mem_singleton.1 hf]
      rfl
    rw [Listing.rows, Listing.rows,
      keep_cross fun f hf g _ => hbehind f g (t.wideFront f hf), hgroup, t.front_eq, cross_assoc]
  · intro k targets htargets target htarget
    have hk : k < r.joins.length := by
      rw [← plan_joins_length catalog r]
      exact (List.getElem?_eq_some_iff.1 htargets).1
    obtain ⟨j, hj⟩ : ∃ j, r.joins[k]? = some j := ⟨_, List.getElem?_eq_getElem hk⟩
    rw [plan_getElem? hj] at htargets
    obtain ⟨table, hmem, htable⟩ := exists_in_group hj (Option.some.inj htargets ▸ htarget)
    exact ⟨table, hmem, Reference.visibleName_of_target htable⟩

def commasAndJoins : References where
  first := ⟨some "hist_a".toList, some ['a'], ⟨0, 2⟩⟩
  joins := [
    ⟨.comma, ⟨some "plain".toList, some ['b'], ⟨3, 5⟩⟩, none, ⟨2, 3⟩, ⟨2, 5⟩⟩,
    ⟨.left, ⟨some "hist_c".toList, none, ⟨7, 8⟩⟩, none, ⟨5, 7⟩, ⟨5, 8⟩⟩,
    ⟨.comma, ⟨some "other".toList, none, ⟨9, 10⟩⟩, none, ⟨8, 9⟩, ⟨8, 10⟩⟩,
    ⟨.right, ⟨some "hist_e".toList, none, ⟨12, 13⟩⟩, none, ⟨10, 12⟩, ⟨10, 13⟩⟩]

theorem listRows_of_plan_commasAndJoins :
    let catalog : Catalog := ⟨["hist_a".toList, "hist_c".toList, "hist_e".toList]⟩
    let db : Database Nat := ⟨fun _ => {0, 1}, fun _ => 0⟩
    let alive : Text → Nat → Bool := fun _ flag => flag == 0
    let on : Nat → Row Nat → Bool := fun number row =>
      number % 2 == 0 || row[number]? == row[number + 1]?
    (commasAndJoins.tables.filterMap Reference.visibleName).Nodup ∧
      commasAndJoins.OwnGroups on ∧ commasAndJoins.KeepsRightGroups catalog ∧
      Row.keep
          (allAlive alive (commasAndJoins.plan catalog).carried.toList commasAndJoins.tables)
          ((commasAndJoins.rebuilt catalog).listRows db
            ((commasAndJoins.plan catalog).on alive commasAndJoins.tables on)) =
        commasAndJoins.listRows (db.live catalog alive) on := by
  intro catalog db alive on
  have hnames : (commasAndJoins.tables.filterMap Reference.visibleName).Nodup := by decide
  have hlocal : commasAndJoins.OwnGroups on := by
    have hstart : commasAndJoins.groupStart 2 = 1 ∧ commasAndJoins.groupStart 4 = 3 := by decide
    intro number hnumber row row' _ _ hdrop
    have hentry : ∀ n : Nat, (row.drop (commasAndJoins.groupStart (number + 1)))[n]? =
        (row'.drop (commasAndJoins.groupStart (number + 1)))[n]? := fun n => by rw [hdrop]
    match number, hnumber with
    | 0, _ | 2, _ => rfl
    | 1, _ | 3, _ =>
        have h₀ := hentry 0
        have h₁ := hentry 1
        simp only [hstart, List.getElem?_drop] at h₀ h₁
        simp [on, h₀, h₁]
  have hright : commasAndJoins.KeepsRightGroups catalog := by
    intro k j hj hshape
    match k with
    | 0 | 1 | 2 =>
        cases hj
        cases hshape
    | 3 => decide
    | k + 4 => cases hj
  exact ⟨hnames, hlocal, hright, (listRows_of_plan _ _ _ _ _ hnames hlocal hright).1⟩

/-- `hist_a a, plain b RIGHT JOIN other c`. The first comma gets the filter of `a`, and then the right
join keeps the rows of `c` also where there is no `a`. -/
def commaThenRight : References where
  first := ⟨some "hist_a".toList, some ['a'], ⟨0, 2⟩⟩
  joins := [
    ⟨.comma, ⟨some "plain".toList, some ['b'], ⟨3, 5⟩⟩, none, ⟨2, 3⟩, ⟨2, 5⟩⟩,
    ⟨.right, ⟨some "other".toList, some ['c'], ⟨7, 9⟩⟩, none, ⟨5, 7⟩, ⟨5, 9⟩⟩]

theorem listRows_of_plan_not_right :
    let catalog : Catalog := ⟨["hist_a".toList]⟩
    let db : Database Nat := ⟨fun name => if name = "other".toList then {0} else 0, fun _ => 0⟩
    let alive : Text → Nat → Bool := fun _ flag => flag == 0
    let on : Nat → Row Nat → Bool := fun _ _ => true
    (commaThenRight.tables.filterMap Reference.visibleName).Nodup ∧
      commaThenRight.OwnGroups on ∧
      Row.keep
          (allAlive alive (commaThenRight.plan catalog).carried.toList commaThenRight.tables)
          ((commaThenRight.rebuilt catalog).listRows db
            ((commaThenRight.plan catalog).on alive commaThenRight.tables on)) ≠
        commaThenRight.listRows (db.live catalog alive) on := by
  intro catalog db alive on
  exact ⟨by decide, fun _ _ _ _ _ _ _ => rfl, by decide⟩

end References

end SoftDelete
