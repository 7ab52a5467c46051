import SoftDelete.Proofs.Bounds.References
import SoftDelete.Proofs.Bounds.Scan

namespace SoftDelete

open Run

namespace Level

def whereEdits? (l : Level) (depths : List Nat) (first stop bodyStop : Nat) (condition : Text) :
    Option (List Edit) := do
  let references ← l.span? first stop
  let follows ← l.whole.startsWith ["WHERE"] stop
  if stop < bodyStop ∧ follows then do
    let word ← l.span? stop (stop + 1)
    let found ← firstOutside? depths l.opensClause? (stop + 1) bodyStop
    let own := found.getD bodyStop
    if own = stop + 1 then some [.insert word.2 (' ' :: condition)]
    else do
      let existing ← l.span? (stop + 1) own
      some [.insert existing.1 ['('], .insert existing.2 (") AND ".toList ++ condition)]
  else some [.insert references.2 (" WHERE ".toList ++ condition)]

end Level

namespace Join

variable (l : Level) (j : Join)

def ownCondition? : Run (List Text) :=
  match j.clause with
  | some (.on _ items) => do
      let text ← reach (l.render? items.start items.stop)
      pure ['(' :: (text ++ [')'])]
  | some (.using _) => throw (.joinWithoutOn (j.kind.keyword ++ " ... USING"))
  | none => if j.kind.isNatural then throw (.joinWithoutOn j.kind.keyword) else pure []

def keywordText? : Option Text :=
  match j.kind with
  | .comma => some "INNER JOIN".toList
  | _ => l.render? j.keywordItems.start j.keywordItems.stop

def leadingSpace? (start : Nat) : Option Text := do
  let front ← l.source.slice? 0 start
  match front.getLast? with
  | some c => if isBlank c then some [] else some [' ']
  | none => some []

def edit? (column : Text) (targets : List Text) : Run Edit := do
  let own ← j.ownCondition? l
  let conditions := targets.map (filterCondition column) ++ own
  let bytes ← reach (l.span? j.items.start j.items.stop)
  let keyword ← reach (j.keywordText? l)
  let lead ← reach (leadingSpace? l bytes.1)
  let table ← reach (l.render? j.table.items.start j.table.items.stop)
  pure ⟨bytes.1, bytes.2, lead ++ (keyword ++ ' ' ::
    (table ++ (" ON ".toList ++ Text.joined " AND " conditions)))⟩

end Join

def References.edits? (l : Level) (column : Text) (r : References) (plan : FilterPlan) :
    Run (List Edit) :=
  ((r.joins.zip plan.joins).filter fun pair => !pair.2.isEmpty).mapM fun pair =>
    pair.1.edit? l column pair.2

namespace Level

variable (l : Level)

def bodyEdit? (catalog : Catalog) (options : Options) (depths : List Nat) (body : ItemRange) :
    Run LevelEdit := do
  match ← reach (firstOutside? depths (l.whole.startsWith ["FROM"]) body.start body.stop) with
  | none => pure ⟨[], []⟩
  | some n => do
      let first := n + 1
      let found ← reach (firstOutside? depths l.endsReferences? first body.stop)
      let stop := found.getD body.stop
      if ← reach (l.namesTableIn? catalog first stop) then do
        let r ← Cursor.parse ⟨l, stop⟩ options.maxJoins first
        let plan := r.plan catalog
        let edits ← r.edits? l options.column plan
        let added ← match plan.carried with
          | none => pure []
          | some target =>
              reach (l.whereEdits? depths first stop body.stop
                (filterCondition options.column target))
        pure ⟨edits ++ added, plan.constrained⟩
      else pure ⟨[], []⟩

def filterEdit? (catalog : Catalog) (options : Options) : Run LevelEdit := do
  let depths ← reach (depthsFrom? 0 l.items)
  let bodies ← reach (l.bodiesFrom? depths 0 0 l.items.length)
  let parts ← bodies.mapM (l.bodyEdit? catalog options depths)
  pure (LevelEdit.concat parts)

end Level

structure ItemRange.Within (r : ItemRange) (n : Nat) : Prop where
  inhabited : r.start < r.stop
  bounded : r.stop ≤ n

structure Join.Within (j : Join) (n : Nat) : Prop where
  items : j.items.Within n
  keyword : j.keywordItems.Within n
  table : j.table.items.Within n
  clause : ∀ tree own, j.clause = some (.on tree own) → own.Within n

theorem Join.Spans.within {start n : Nat} {items : List Item} {j : Join} (h : j.Spans start items)
    (hn : start + items.length ≤ n) : j.Within n := by
  obtain @⟨keyword, table, own, _, hkind, hkeywords, htable, hown, hitems⟩ := h
  have hkeyword := List.length_pos_of_ne_nil hkind.ne_nil
  have hname := List.length_pos_of_ne_nil htable.settles.ne_nil
  simp only [List.length_append] at hn hitems
  refine ⟨?_, ?_, ?_, ?_⟩
  · rw [hitems]
    constructor <;> simp only <;> omega
  · rw [hkeywords]
    constructor <;> simp only <;> omega
  · rw [htable.range]
    constructor <;> simp only <;> omega
  · rintro tree range hclause
    rw [hclause] at hown
    cases hown with
    | @on i cond _ hon hcond =>
        have hcond := List.length_pos_of_ne_nil hcond.settles.ne_nil
        rw [List.length_cons] at hn
        constructor <;> simp only <;> omega

theorem Join.ListSpans.within {start n : Nat} {items : List Item} {js : List Join}
    (h : Join.ListSpans start items js) (hn : start + items.length ≤ n) : ∀ j ∈ js, j.Within n := by
  intro j hj
  obtain ⟨front, used, back, rfl, hspans⟩ := h.exists_spans hj
  simp only [List.length_append] at hn
  exact hspans.within (by omega)

theorem References.parse_within {l : Level} {room maxJoins first stop : Nat} {after : Option Item}
    {r : References} (hstop : stop ≤ l.items.length)
    (h : References.parse room maxJoins first (l.itemsIn first stop) after = .ok r) :
    first < stop ∧ ∀ j ∈ r.joins, j.Within l.items.length := by
  obtain ⟨head, rest, hin, hspans⟩ := References.parse_spans h
  have hhead := List.length_pos_of_ne_nil hspans.first.settles.ne_nil
  have hfirst : first < stop := by
    refine Nat.lt_of_not_le fun hle => ?_
    rw [Level.itemsIn_of_le hle] at hin
    have hlen := congrArg List.length hin
    rw [List.length_nil, List.length_append] at hlen
    omega
  have hlen : first + (head ++ rest).length ≤ stop := hin ▸ l.itemsIn_length_le (Nat.le_of_lt hfirst)
  rw [List.length_append] at hlen
  exact ⟨hfirst, hspans.joins.within (by omega)⟩

section Joins

variable {l : Level} {j : Join} {d : Nat}

theorem Join.leadingSpace?_eq (h : j.items.start < l.items.length) :
    leadingSpace? l (l.startOf j.items.start) = some (j.leadingSpace l) := by
  have hslice := Level.slice?_before h
  rw [leadingSpace?, hslice, leadingSpace]
  dsimp only [Option.bind_eq_bind, Option.bind_some]
  cases (l.before j.items.start).getLast? with
  | none => rfl
  | some c => cases hblank : isBlank c <;> simp [hblank]

variable (hsolid : ∀ i ∈ l.items, i.text ≠ []) (hj : j.Within l.items.length)

include hsolid hj

theorem Join.ownCondition_comes : ComesTo d (j.ownCondition? l) (j.ownCondition l) := by
  have hclause := hj.clause
  unfold ownCondition? ownCondition
  cases hown : j.clause with
  | none =>
      dsimp only
      split
      · exact .throw d _
      · exact .pure d _
  | some own =>
      cases own with
      | «using» columns => exact .throw d _
      | on tree items =>
          obtain ⟨hitems, hbound⟩ := hclause tree items hown
          dsimp only
          rw [Level.render?_eq hsolid hitems hbound]
          exact .pure d _

theorem Join.keywordText?_eq : j.keywordText? l = some (j.keywordText l) := by
  have hrender := Level.render?_eq hsolid hj.keyword.inhabited hj.keyword.bounded
  unfold keywordText? keywordText
  cases j.kind <;> first | rfl | exact hrender

theorem Join.edit_comes (column : Text) (targets : List Text) :
    ComesTo d (j.edit? l column targets) (j.edit l column targets) := by
  refine (ownCondition_comes hsolid hj).bind fun own _ => ?_
  have hstart := Nat.lt_of_lt_of_le hj.items.inhabited hj.items.bounded
  dsimp only
  rw [Level.span?_eq hj.items.inhabited hj.items.bounded, keywordText?_eq hsolid hj,
    Level.render?_eq hsolid hj.table.inhabited hj.table.bounded]
  dsimp only [reach_some_bind]
  rw [leadingSpace?_eq hstart]
  exact .pure d _

end Joins

section Bodies

variable {l : Level} (catalog : Catalog) (options : Options)

theorem whereEdits?_eq {first stop bodyStop : Nat} (hfirst : first < stop)
    (hstop : stop ≤ l.items.length) (hbody : bodyStop ≤ l.items.length) (condition : Text) :
    l.whereEdits? l.depths first stop bodyStop condition =
      some (seekWhereEdits l stop bodyStop condition) := by
  rw [Level.whereEdits?, Level.span?_eq hfirst hstop, Level.startsWith_whole, seekWhereEdits]
  dsimp only [Option.bind_eq_bind, Option.bind_some]
  by_cases hwhere : stop < bodyStop ∧ startsWithWords ["WHERE"] (l.items.drop stop) = true
  · rw [if_pos hwhere, if_pos hwhere, Level.span?_eq (Nat.lt_succ_self stop) (by omega),
      Level.firstOutside?_eq Level.opensClause?_eq hbody]
    dsimp only [Option.bind_some]
    rw [← Level.seek]
    have hown : stop + 1 ≤ l.seek opensClause (stop + 1) bodyStop := l.le_seek opensClause hwhere.1
    have hend := l.seek_le opensClause (stop + 1) bodyStop
    split
    · rfl
    · rename_i hne
      rw [Level.span?_eq (by omega) (by omega)]
      rfl
  · rw [if_neg hwhere, if_neg hwhere]

variable (hsolid : ∀ i ∈ l.items, i.text ≠ [])

include hsolid

theorem References.edits_comes {r : References} (hjoins : ∀ j ∈ r.joins, j.Within l.items.length)
    (column : Text) (plan : FilterPlan) {d : Nat} :
    ComesTo d (r.edits? l column plan) (r.edits l column plan) := by
  refine .mapM fun pair hpair => ?_
  have hmem := List.mem_of_mem_filter hpair
  exact Join.edit_comes hsolid (hjoins pair.1 (List.of_mem_zip hmem).1) column pair.2

theorem bodyEdit_comes {body : ItemRange} (h : body.start ≤ body.stop)
    (hbody : body.stop ≤ l.items.length) :
    ComesTo 0 (l.bodyEdit? catalog options l.depths body) (seekBodyEdit catalog options l body) := by
  rw [Level.bodyEdit?, Level.firstOutside?_eq (Level.startsWith_whole ["FROM"]) hbody]
  cases hfind : (List.range' body.start (body.stop - body.start)).find? fun n =>
      l.depths[n]? == some 0 && startsWithWords ["FROM"] (l.items.drop n) with
  | none =>
      have hfrom : l.seek (startsWithWords ["FROM"]) body.start body.stop = body.stop := by
        rw [Level.seek, hfind, Option.getD_none]
      have hend : l.seek endsReferences (body.stop + 1) body.stop = body.stop := by simp [Level.seek]
      rw [seekBodyEdit, hfrom, hend, Level.itemsIn_of_le (Nat.le_succ _)]
      exact .pure 0 _
  | some n =>
      have hn := List.mem_range'_1.1 (List.mem_of_find?_eq_some hfind)
      have hfrom : l.seek (startsWithWords ["FROM"]) body.start body.stop = n := by
        rw [Level.seek, hfind, Option.getD_some]
      obtain ⟨stop, hseek⟩ : ∃ stop, l.seek endsReferences (n + 1) body.stop = stop := ⟨_, rfl⟩
      have hends : n + 1 ≤ stop := hseek ▸ l.le_seek endsReferences (by omega)
      have hstop : stop ≤ l.items.length :=
        Nat.le_trans (hseek ▸ l.seek_le endsReferences (n + 1) body.stop) hbody
      rw [seekBodyEdit, hfrom, hseek, reach_some_bind]
      dsimp only
      rw [Level.firstOutside?_eq Level.endsReferences?_eq hbody, reach_some_bind, ← Level.seek, hseek,
        Level.namesTableIn?_eq catalog hends hstop, reach_some_bind]
      split
      · refine (Cursor.parse_comes (c := ⟨l, stop⟩) hstop hsolid options.maxJoins (n + 1)).bind
          fun r hr => ?_
        obtain ⟨hfirst, hjoins⟩ := References.parse_within hstop hr
        refine (References.edits_comes hsolid hjoins _ _).bind fun edits _ => ?_
        cases (r.plan catalog).carried with
        | none => exact .pure 0 _
        | some target =>
            dsimp only
            rw [whereEdits?_eq hfirst hstop hbody, reach_some_bind, Option.toList_some,
              List.flatMap_singleton]
            exact .pure 0 _
      · exact .pure 0 _

theorem Level.filterEdit_comes :
    ComesTo 0 (l.filterEdit? catalog options) (l.filterEdit catalog options) := by
  rw [filterEdit_eq_seek, filterEdit?, depthsFrom?_eq, Run.reach_some_bind, ← depths,
    bodiesFrom?_eq (Nat.zero_add _), Run.reach_some_bind, map_eq_pure_bind]
  refine ComesTo.bind (.mapM fun body hmem => ?_) fun parts _ => .pure 0 _
  obtain ⟨h, hbody⟩ := bounds_of_mem_bodyRanges hmem
  exact bodyEdit_comes catalog options hsolid h hbody

end Bodies

end SoftDelete
