import Mathlib.Data.List.Perm.Subperm
import SoftDelete.Proofs.Coverage.References
import SoftDelete.Proofs.Select.Body

namespace SoftDelete

namespace Scan

variable {catalog : Catalog} {every : Bool} {s : Scan} {items rest : List Item} {i : Item}

structure Waits (s : Scan) : Prop where
  place : s.place = .select ∨ s.place = .past
  base : s.place = .select → s.base = 0

theorem Waits.not_table (h : s.Waits) : s.place ≠ .table := by
  rcases h.place with hplace | hplace <;> simp [hplace]

theorem Waits.opensGroup (h : s.Waits) : s.opensGroup i = false := by
  rcases h.place with hplace | hplace <;> simp [Scan.opensGroup, hplace]

theorem Waits.demands_cons (h : s.Waits) (rest : List Item) :
    s.demands catalog every (i :: rest) = (s.next every i rest).demands catalog every rest := by
  rw [demands, demand_eq_nil h.not_table, List.nil_append]

theorem Waits.placeAfter (h : s.Waits) (hunion : s.depth = 0 → i.spells "UNION" = false)
    (hfrom : s.place = .select → s.depth = 0 → i.spells "FROM" = false) (rest : List Item) :
    s.placeAfter false i rest = s.place := by
  have hhead : ¬ (s.depth = 0 ∧ i.spells "UNION" = true) := by
    rintro ⟨hdepth, hspells⟩
    simp [hunion hdepth] at hspells
  have hbegin : ¬ (s.depth = 0 ∧ i.spells "FROM" = true ∧
      ((false : Bool) = true ∨ s.place = .select)) := by
    rintro ⟨hdepth, hspells, hevery | hplace⟩
    · cases hevery
    · simp [hfrom hplace hdepth] at hspells
  rw [Scan.placeAfter, if_neg hhead, if_neg hbegin, placeInBody]
  rcases h.place with hplace | hplace <;> simp [hplace]

theorem Waits.exists_after (h : s.Waits) (hunion : Avoids "UNION" s.depth items)
    (hfrom : s.place = .select → Avoids "FROM" s.depth items) (catalog : Catalog)
    (rest : List Item) :
    ∃ s' : Scan, s'.Waits ∧ s'.place = s.place ∧ s'.depth = depthOver s.depth items ∧
      s.demands catalog false (items ++ rest) = s'.demands catalog false rest := by
  induction items generalizing s with
  | nil => exact ⟨s, h, rfl, rfl, rfl⟩
  | cons i items ih =>
      have hplace : (s.next false i (items ++ rest)).place = s.place :=
        h.placeAfter hunion.1 (fun hselect => (hfrom hselect).1) _
      have hnext : (s.next false i (items ++ rest)).Waits :=
        ⟨hplace.symm ▸ h.place, fun hselect => by
          simp [next, h.opensGroup, h.base (hplace.symm.trans hselect)]⟩
      obtain ⟨s', hs', hplace', hdepth, hdemands⟩ := ih hnext hunion.2 fun hselect =>
        (hfrom (hplace.symm.trans hselect)).2
      refine ⟨s', hs', hplace'.trans hplace, hdepth, ?_⟩
      rw [List.cons_append, h.demands_cons, hdemands]

theorem Waits.demands_eq_nil (h : s.Waits) (hunion : Avoids "UNION" s.depth items)
    (hfrom : s.place = .select → Avoids "FROM" s.depth items) :
    s.demands catalog false items = [] := by
  obtain ⟨s', -, -, -, hdemands⟩ := h.exists_after hunion hfrom catalog []
  rwa [List.append_nil] at hdemands

theorem demands_eq_nil_of_names (hnames : items.any (Item.namesTable catalog) = false) :
    s.demands catalog every items = [] := by
  induction items generalizing s with
  | nil => rfl
  | cons i items ih =>
      rw [List.any_cons, Bool.or_eq_false_iff] at hnames
      have hmentions : mentioned? catalog i items = none := by simp [mentioned?, hnames.1]
      have hdemand := s.demand_sublist catalog every i items
      rw [hmentions] at hdemand
      rw [demands, ih hnames.2, List.append_nil]
      exact List.eq_nil_of_sublist_nil hdemand

theorem after_depth (every : Bool) (s : Scan) (items : List Item) :
    (s.after every items).depth = depthOver s.depth items := by
  induction items generalizing s with
  | nil => rfl
  | cons i items ih => exact ih (s.next every i items)

theorem after_place (hplace : s.place ≠ .select) (hunion : Avoids "UNION" s.depth items) :
    (s.after every items).place ≠ .select := by
  induction items generalizing s with
  | nil => exact hplace
  | cons i items ih =>
      refine ih (s := s.next every i items) ?_ hunion.2
      have hhead : ¬ (s.depth = 0 ∧ i.spells "UNION" = true) := by
        rintro ⟨hdepth, hspells⟩
        simp [hunion.1 hdepth] at hspells
      change s.placeAfter every i items ≠ .select
      rw [Scan.placeAfter, if_neg hhead]
      split
      · split <;> simp
      · cases hs : s.place with
        | select => exact absurd hs hplace
        | past => simp [placeInBody, hs]
        | table | joined =>
            simp only [placeInBody, hs]
            split
            · simp
            · split <;> simp

theorem demands_eq_nil_of_ends (hplace : s.place ≠ .select) (hdepth : s.depth = 0)
    (hends : endsReferences (i :: rest) = true) (hunion : Avoids "UNION" 0 (i :: rest)) :
    s.demands catalog false (i :: rest) = [] := by
  have hhead : ¬ (s.depth = 0 ∧ i.spells "UNION" = true) := by simp [hunion.1 rfl]
  have hpast : s.placeAfter false i rest = .past := by
    rw [Scan.placeAfter, if_neg hhead, if_neg (by simp [hplace])]
    cases hs : s.place with
    | select => exact absurd hs hplace
    | past => simp [placeInBody, hs]
    | table | joined => simp [placeInBody, hs, hdepth, hends]
  have hwaits : (s.next false i rest).Waits := ⟨.inr hpast, by simp [next, hpast]⟩
  have hrest : (s.next false i rest).demands catalog false rest = [] := by
    apply hwaits.demands_eq_nil
    · simpa [next, hdepth] using hunion.2
    · simp [next, hpast]
  simp [demands, demand, hpast, hrest]

end Scan

theorem Item.IsBar.of_ends {i : Item} {rest : List Item} (h : endsReferences (i :: rest) = true) :
    i.IsBar := by
  have hheads : ∀ words ∈ ["WHERE"] :: clauseHeads, words ≠ [] ∧ ∀ word ∈ words.head?,
      word.toList ∈ reservedWords ∧
        ∀ following ∈ followingWords, Text.sameWord word.toList following.toList = false := by
    decide
  have hbar : ∀ words ∈ ["WHERE"] :: clauseHeads, startsWithWords words (i :: rest) = true →
      i.IsBar := by
    intro words hmem hstarts
    obtain ⟨hne, hhead⟩ := hheads words hmem
    exact .of_starts hstarts hne hhead
  rcases Bool.or_eq_true_iff.1 h with hwhere | hclause
  · exact hbar _ (by simp) hwhere
  · rcases Bool.or_eq_true_iff.1 hclause with hsemicolon | hwords
    · exact .of_mark hsemicolon (.inr rfl)
    · obtain ⟨words, hmem, hstarts⟩ := List.any_eq_true.1 hwords
      exact hbar words (by simp [hmem]) hstarts

section Bodies

variable {catalog : Catalog} {options : Options} {l : Level} {start : Nat} {edit : LevelEdit}
  {s : Scan}

theorem Scan.Expects.demands_append {items after : List Item} (hs : s.Expects)
    (hunion : Avoids "UNION" 0 (items ++ after))
    (hends : breakAt endsReferences 0 (items ++ after) = (items, after)) :
    s.demands catalog false (items ++ after) = s.demands catalog false items := by
  cases after with
  | nil => rw [List.append_nil]
  | cons i rest =>
      have hstop : endsReferences (i :: rest) = true := breakAt_rest (Prod.ext_iff.1 hends).2
      have hend : depthOver 0 items = 0 := depthOver_breakAt hends
      obtain ⟨hfront, hback⟩ := hunion.of_append
      rw [hend] at hback
      rw [Scan.demands_append (.cons (.of_ends hstop) rest)]
      have hplace : s.place ≠ .select := by rcases hs.place with h | h <;> simp [h]
      have hplace' : (s.after false items).place ≠ .select :=
        Scan.after_place hplace (by rwa [hs.depth])
      have hdepth' : (s.after false items).depth = 0 := by rw [Scan.after_depth, hs.depth, hend]
      rw [Scan.demands_eq_nil_of_ends hplace' hdepth' hstop hback, List.append_nil]

theorem References.demands_subperm {r : References} {items : List Item} {room maxJoins start : Nat}
    {after : Option Item} (h : References.parse room maxJoins start items after = .ok r)
    (hs : s.Expects) : (s.demands catalog false items).Subperm (r.plan catalog).constrained := by
  obtain ⟨head, rest, rfl, hspans⟩ := References.parse_spans h
  have htables := (hspans.demands_sublist catalog false hs).subperm
  exact htables.trans (r.plan_constrained_perm catalog).symm.subperm

theorem Scan.Waits.next_from {i : Item} {rest : List Item} (hs : s.Waits)
    (hselect : s.place = .select) (hdepth : s.depth = 0) (hi : i.spells "FROM" = true) :
    (s.next false i rest).Expects := by
  have hdepth' : i.depthAfter 0 = 0 := Item.depthAfter_of_spells hi 0
  have hunion : i.spells "UNION" = false := by
    rw [Item.spells_eq hi]
    decide
  refine ⟨?_, by simp [next, hdepth, hdepth'], by simp [next, hs.opensGroup, hs.base hselect]⟩
  change s.placeAfter false i rest = .table ∨ s.placeAfter false i rest = .past
  cases hpoint : s.point <;> simp [Scan.placeAfter, hdepth, hunion, hi, hselect, hpoint]

theorem BodyParts.exists_expects {body front items after : List Item} {f : Item}
    (h : BodyParts body front f items after) (hs : s.Waits) (hselect : s.place = .select)
    (hdepth : s.depth = 0) (hunion : Avoids "UNION" 0 body) (catalog : Catalog) :
    ∃ s' : Scan, s'.Expects ∧
      s.demands catalog false body = s'.demands catalog false items := by
  obtain ⟨rfl, hfront, hf, hitems⟩ := h
  obtain ⟨hunionFront, hunionRest⟩ := hunion.of_append
  rw [depthOver_breakAt hfront] at hunionRest
  have hnoFrom : Avoids "FROM" s.depth front := hdepth.symm ▸ avoids_of_breakAt hfront
  obtain ⟨s', hs', hplace, hdepth', hdemands⟩ :=
    hs.exists_after (by rwa [hdepth]) (fun _ => hnoFrom) catalog (f :: (items ++ after))
  rw [hdepth, depthOver_breakAt hfront] at hdepth'
  have hexpects : (s'.next false f (items ++ after)).Expects :=
    hs'.next_from (hplace.trans hselect) hdepth' hf
  have hunionTail : Avoids "UNION" 0 (items ++ after) := by
    have htail := hunionRest.2
    rwa [Item.depthAfter_of_spells hf] at htail
  refine ⟨_, hexpects, ?_⟩
  rw [hdemands, hs'.demands_cons, hexpects.demands_append hunionTail hitems]

theorem bodyEdit_covers {body : List Item} (h : bodyEdit catalog options l start body = .ok edit)
    (hs : s.Waits) (hdepth : s.depth = 0) (hunion : Avoids "UNION" 0 body) :
    (s.demands catalog false body).Subperm edit.constrained := by
  have hunion' : Avoids "UNION" s.depth body := hdepth.symm ▸ hunion
  rcases hs.place with hselect | hpast
  · cases bodyEdit_ends h with
    | noFrom hfront =>
        rw [hs.demands_eq_nil hunion' fun _ => hdepth.symm ▸ avoids_of_breakAt hfront]
    | unnamed hparts hnames =>
        obtain ⟨s', -, hdemands⟩ := hparts.exists_expects hs hselect hdepth hunion catalog
        rw [hdemands, Scan.demands_eq_nil_of_names hnames]
    | filtered hparts hparse =>
        obtain ⟨s', hs', hdemands⟩ := hparts.exists_expects hs hselect hdepth hunion catalog
        rw [hdemands]
        exact References.demands_subperm hparse hs'
  · rw [hs.demands_eq_nil hunion' (by simp [hpast])]
    exact List.nil_subperm

theorem Scan.next_union {i : Item} (hdepth : s.depth = 0) (hi : i.spells "UNION" = true)
    (catalog : Catalog) (rest : List Item) :
    (s.next false i rest).Waits ∧ (s.next false i rest).depth = 0 ∧
      s.demands catalog false (i :: rest) = (s.next false i rest).demands catalog false rest := by
  have hdepth' : i.depthAfter 0 = 0 := Item.depthAfter_of_spells hi 0
  have hgroup : s.opensGroup i = false := by
    simp [opensGroup, Item.hasKind, Item.kind?_of_spells hi]
  have hplace : s.placeAfter false i rest = .select ∨ s.placeAfter false i rest = .past := by
    rw [Scan.placeAfter, if_pos ⟨hdepth, hi⟩]
    split
    · exact .inr rfl
    · exact .inl rfl
  refine ⟨⟨hplace, fun _ => ?_⟩, ?_, ?_⟩
  · simp [next, hgroup, hdepth, hdepth']
  · simp [next, hdepth, hdepth']
  · rcases hplace with hplace | hplace <;> simp [demands, demand, hplace]

theorem bodyEdits_covers {items : List Item} (hs : s.Waits) (hdepth : s.depth = 0)
    (h : bodyEdits catalog options l start (bodies items) = .ok edit) :
    (s.demands catalog false items).Subperm edit.constrained := by
  fun_induction bodies items generalizing s start edit with
  | case1 items body hbreak =>
      obtain rfl := eq_of_breakAt hbreak
      obtain ⟨first, hfirst, h⟩ := exists_of_bind_ok h
      cases h
      change (s.demands catalog false items).Subperm (first.constrained ++ [])
      rw [List.append_nil]
      exact bodyEdit_covers hfirst hs hdepth (avoids_of_breakAt hbreak)
  | case2 items body u rest hbreak ih =>
      have hu := spells_of_breakAt hbreak
      obtain ⟨first, hfirst, h⟩ := exists_of_bind_ok h
      obtain ⟨more, hmore, h⟩ := exists_of_bind_ok h
      cases h
      have hbar : u.IsBar := .of_spells hu (by decide) (by decide)
      have hend : (s.after false body).depth = 0 := by
        rw [Scan.after_depth, hdepth, depthOver_breakAt hbreak]
      obtain ⟨hnext, hdepth', hdemands⟩ := Scan.next_union hend hu catalog rest
      rw [eq_append_of_breakAt hbreak, Scan.demands_append (.cons hbar rest), hdemands]
      exact (bodyEdit_covers hfirst hs hdepth (avoids_of_breakAt hbreak)).append
        (ih hnext hdepth' hmore)

end Bodies

end SoftDelete
