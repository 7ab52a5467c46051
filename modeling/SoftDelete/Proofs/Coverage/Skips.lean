import SoftDelete.Proofs.Coverage.References
import SoftDelete.Proofs.Identity

namespace SoftDelete

variable {catalog : Catalog} {items : List Item}

theorem TableName.mentioned {name : Text} (h : TableName (some name) items)
    (hmem : catalog.contains name = true) :
    items.any (Item.namesTable catalog) = true ∨ ∃ listed ∈ catalog.names, '.' ∈ listed := by
  cases h with
  | named hparts =>
      obtain ⟨i, text, xs, later, rfl, rfl, hi, hlater⟩ := hparts
      obtain ⟨t, rfl, hcan, rfl⟩ := Item.freeName?_eq_some hi
      cases hlater with
      | nil =>
          have hname : Text.joined "." [t.text] = t.text := by simp [Text.joined]
          rw [List.map_nil, hname] at hmem
          exact .inl (by simp [Item.namesTable, hcan, hmem])
      | @cons _ link second _ _ xs hlink helement hrest =>
          refine .inr ⟨_, Catalog.contains_iff.1 hmem, List.mem_filter.2 ⟨?_, by decide⟩⟩
          simp [Text.joined, List.intercalate]

theorem Reference.Spans.mentioned {r : Reference} {start : Nat} (h : r.Spans start items)
    (htarget : r.target catalog ≠ none) :
    items.any (Item.namesTable catalog) = true ∨ ∃ listed ∈ catalog.names, '.' ∈ listed := by
  obtain ⟨table, tail, rfl, htable, -⟩ := h.derives
  cases hname : r.name with
  | none => simp [Reference.target, hname] at htarget
  | some name =>
      have hmem : catalog.contains name = true := by
        by_contra hmem
        simp [Reference.target, hname, hmem] at htarget
      rw [hname] at htable
      rw [List.any_append, Bool.or_eq_true]
      exact (htable.mentioned hmem).imp_left .inl

theorem Join.ListSpans.mentioned {start : Nat} {js : List Join} (h : Join.ListSpans start items js)
    {j : Join} (hj : j ∈ js) (htarget : j.table.target catalog ≠ none) :
    items.any (Item.namesTable catalog) = true ∨ ∃ listed ∈ catalog.names, '.' ∈ listed := by
  obtain ⟨front, table, back, n, rfl, htable⟩ := h.exists_table hj
  simp only [List.any_append, Bool.or_eq_true]
  exact (htable.mentioned htarget).imp_left fun hany => .inr (.inl hany)

namespace References

variable {r : References}

theorem Spans.mentioned {start : Nat} {head rest : List Item} (h : r.Spans start head rest)
    {table : Reference} (htable : table ∈ r.tables) (htarget : table.target catalog ≠ none) :
    (head ++ rest).any (Item.namesTable catalog) = true ∨ ∃ listed ∈ catalog.names, '.' ∈ listed := by
  rw [List.any_append, Bool.or_eq_true]
  rcases List.mem_cons.1 htable with rfl | htable
  · exact (h.first.mentioned htarget).imp_left .inl
  · obtain ⟨j, hj, rfl⟩ := List.mem_map.1 htable
    exact (h.joins.mentioned hj htarget).imp_left .inr

theorem constrained_of_unmentioned {room maxJoins start : Nat} {after : Option Item}
    (hread : References.parse room maxJoins start items after = .ok r)
    (hnames : ∀ name ∈ catalog.names, '.' ∉ name)
    (hskip : items.any (Item.namesTable catalog) = false) : (r.plan catalog).constrained = [] := by
  obtain ⟨head, rest, rfl, hspans⟩ := parse_spans hread
  apply List.Perm.eq_nil
  refine (r.plan_constrained_perm catalog).trans (.of_eq ?_)
  rw [List.flatMap_eq_nil_iff]
  intro table htable
  by_contra htarget
  have hnamed : table.target catalog ≠ none := by simpa using htarget
  rcases hspans.mentioned htable hnamed with hmentions | ⟨name, hname, hdot⟩
  · rw [hskip] at hmentions
    cases hmentions
  · exact hnames name hname hdot

theorem unfiltered_of_skipped {room maxJoins start : Nat} {after : Option Item} {l : Level}
    {pre post : List Item} (hread : References.parse room maxJoins start items after = .ok r)
    (hitems : l.items = pre ++ (items ++ post)) (hnames : ∀ name ∈ catalog.names, '.' ∉ name)
    (hskip : l.namesTable catalog = false ∨ items.any (Item.namesTable catalog) = false) :
    (r.plan catalog).constrained = [] ∧ (r.plan catalog).carried = none ∧
      ∀ column, r.edits l column (r.plan catalog) = .ok [] := by
  have hbody : items.any (Item.namesTable catalog) = false := by
    rcases hskip with hlevel | hbody
    · rw [Level.namesTable, hitems, List.any_append, List.any_append] at hlevel
      exact (Bool.or_eq_false_iff.1 (Bool.or_eq_false_iff.1 hlevel).2).1
    · exact hbody
  have hnone := constrained_of_unmentioned hread hnames hbody
  obtain ⟨hjoins, hcarried⟩ := List.append_eq_nil_iff.1 hnone
  exact ⟨hnone, Option.toList_eq_nil_iff.1 hcarried, fun _ => r.edits_eq_nil hjoins⟩

example :
    let catalog : Catalog := ⟨["db.hist_a".toList]⟩
    let items : List Item := [.token ⟨[' '], .word, "db".toList⟩, .token ⟨[], .dot, ['.']⟩,
      .token ⟨[], .word, "hist_a".toList⟩]
    items.any (Item.namesTable catalog) = false ∧
      (References.parse 8 8 0 items none).toOption.map (fun r => (r.plan catalog).constrained) =
        some ["db.hist_a".toList] := by
  decide +kernel

end References

end SoftDelete
