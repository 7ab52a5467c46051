import SoftDelete.Proofs.Coverage.Silence
import SoftDelete.Proofs.Join.Walk

namespace SoftDelete

open Reading

section Bars

variable {i : Item} {items rest : List Item}

theorem Item.IsBar.of_spells {word : String} (h : i.spells word = true)
    (hreserved : word.toList ∈ reservedWords)
    (hword : ∀ following ∈ followingWords, Text.sameWord word.toList following.toList = false) :
    i.IsBar := by
  refine ⟨freeName?_of_spells h hreserved, ?_, fun following hfollowing =>
    (spells_eq h following).trans (hword following hfollowing)⟩
  simp [hasKind, kind?_of_spells h]

theorem Item.IsBar.of_starts {words : List String} (h : startsWithWords words (i :: rest) = true)
    (hne : words ≠ []) (hhead : ∀ word ∈ words.head?, word.toList ∈ reservedWords ∧
      ∀ following ∈ followingWords, Text.sameWord word.toList following.toList = false) :
    i.IsBar := by
  obtain ⟨word, later, rfl⟩ := List.exists_cons_of_ne_nil hne
  obtain ⟨hreserved, hword⟩ := hhead word rfl
  exact .of_spells (Bool.and_eq_true_iff.1 h).1 hreserved hword

theorem Item.IsBar.of_mark {kind : Token.Kind} (h : i.hasKind kind = true)
    (hkind : kind = .comma ∨ kind = .semicolon) : i.IsBar := by
  have hi := kind?_of_hasKind h
  refine ⟨?_, ?_, fun following _ => spells_eq_false ?_ following⟩
  · rcases hkind with rfl | rfl <;> simp [freeName?, hi]
  · rcases hkind with rfl | rfl <;> simp [hasKind, hi]
  · rcases hkind with rfl | rfl <;> simp [hi]

theorem Barred.keyword {kind : Join.Kind} (h : kind.Spans items) (rest : List Item) :
    Barred (items ++ rest) := by
  rcases h with ⟨-, t, rfl, ht⟩ | ⟨-, words, hform, hstarts, hlen⟩
  · exact .cons (.of_mark (by simp [Item.hasKind, Item.kind?, ht]) (.inl rfl)) rest
  · have hforms : ∀ form ∈ Join.Kind.forms, form.2 ≠ [] ∧ ∀ word ∈ form.2.head?,
        word.toList ∈ reservedWords ∧
          ∀ following ∈ followingWords, Text.sameWord word.toList following.toList = false := by
      decide
    obtain ⟨hne, hhead⟩ := hforms _ hform
    cases items with
    | nil => exact absurd (List.eq_nil_of_length_eq_zero hlen.symm) hne
    | cons i items => exact .cons (.of_starts hstarts hne hhead) _

theorem Barred.clause {start : Nat} {clause : Option Join.Clause}
    (h : Join.Clause.Spans start items clause) (hrest : Barred rest) : Barred (items ++ rest) := by
  cases h with
  | none => exact hrest
  | on hon => exact .cons (.of_spells hon (by decide) (by decide)) _
  | «using» husing => exact .cons (.of_spells husing (by decide) (by decide)) _

theorem Barred.joins {start : Nat} {js : List Join} (h : Join.ListSpans start items js) :
    Barred items := by
  cases h with
  | nil => exact .nil
  | @cons _ first rest j js hfirst hrest =>
      obtain @⟨keyword, table, own, _, hkeyword, -, -, -, -⟩ := hfirst
      simpa using Barred.keyword hkeyword (table ++ (own ++ rest))

end Bars

namespace Scan

structure Expects (s : Scan) : Prop where
  place : s.place = .table ∨ s.place = .past
  depth : s.depth = 0
  base : s.base = 0

variable {catalog : Catalog} {every : Bool} {s : Scan} {i : Item}

theorem demand_sublist (catalog : Catalog) (every : Bool) (s : Scan) (i : Item)
    (rest : List Item) :
    (s.demand catalog every i rest).Sublist (mentioned? catalog i rest).toList := by
  unfold demand
  split
  · exact .refl _
  · exact List.nil_sublist _

theorem Expects.next (h : s.Expects) (hi : i.Flat) (rest : List Item) :
    (s.next every i rest).Behind 0 := by
  have hgroup : s.opensGroup i = false := by
    have hparen : i.hasKind .lparen = false := by
      by_contra hparen
      have hdepth := Item.depthAfter_of_lparen (by simpa using hparen) 0
      simp [hi.depthAfter] at hdepth
    simp [opensGroup, hparen]
  have hplace : s.placeAfter every i rest = .joined ∨ s.placeAfter every i rest = .past := by
    rw [placeAfter_eq fun _ => hi.heads, placeInBody]
    rcases h.place with hplace | hplace
    · simp only [hplace, hi.opensTable, hgroup]
      split
      · exact .inr rfl
      · exact .inl (by simp)
    · exact .inr (by simp [hplace])
  exact ⟨hplace, by simp [Scan.next, h.depth, hi.depthAfter], by simp [Scan.next, hgroup, h.base]⟩

theorem Behind.opens (h : s.Behind 0) (hi : i.opensTable = true)
    (hheads : i.spells "UNION" = false ∧ i.spells "FROM" = false) (hdepth : i.depthAfter 0 = 0)
    (rest : List Item) : (s.next every i rest).Expects := by
  have hplace : s.placeAfter every i rest = .table ∨ s.placeAfter every i rest = .past := by
    rw [placeAfter_eq fun _ => hheads, placeInBody]
    rcases h.place with hplace | hplace
    · simp only [hplace, h.depth, h.base, hi]
      split
      · exact .inr rfl
      · exact .inl (by simp)
    · exact .inr (by simp [hplace])
  exact ⟨hplace, by simp [Scan.next, h.depth, hdepth], by simp [Scan.next, h.opensGroup, h.base]⟩

end Scan

def Opens (catalog : Catalog) (every : Bool) (items : List Item) : Prop :=
  ∀ (s : Scan) (rest : List Item), s.Behind 0 → ∃ s' : Scan, s'.Expects ∧
    s.demands catalog every (items ++ rest) = s'.demands catalog every rest

section Tables

variable {catalog : Catalog} {every : Bool} {items rest : List Item}

theorem Opens.one {i : Item} (hi : i.opensTable = true)
    (hheads : i.spells "UNION" = false ∧ i.spells "FROM" = false) (hdepth : i.depthAfter 0 = 0) :
    Opens catalog every [i] := by
  intro s rest hs
  exact ⟨s.next every i rest, hs.opens hi hheads hdepth rest, hs.demands_cons rest⟩

theorem Opens.append {more : List Item} (hmore : Opens catalog every more)
    (h : Silent catalog every 0 0 items) : Opens catalog every (items ++ more) := by
  intro s rest hs
  obtain ⟨s', hs', hdemands⟩ := h s (more ++ rest) hs
  obtain ⟨s'', hs'', hdemands'⟩ := hmore s' rest hs'
  exact ⟨s'', hs'', by rw [List.append_assoc, hdemands, hdemands']⟩

theorem SpelledBy.exists_last {words : List String} {word : String}
    (h : SpelledBy (words ++ [word]) items) :
    ∃ front i, items = front ++ [i] ∧ SpelledBy words front ∧ i.spells word = true := by
  induction words generalizing items with
  | nil =>
      obtain ⟨hstarts, hlen⟩ := h
      obtain ⟨i, rfl⟩ := List.length_eq_one_iff.1 hlen
      exact ⟨[], i, rfl, ⟨rfl, rfl⟩, (Bool.and_eq_true_iff.1 hstarts).1⟩
  | cons first words ih =>
      obtain ⟨hstarts, hlen⟩ := h
      cases items with
      | nil => cases hlen
      | cons j items =>
          obtain ⟨hword, hlater⟩ := Bool.and_eq_true_iff.1 hstarts
          obtain ⟨front, i, rfl, hfront, hi⟩ := ih ⟨hlater, Nat.succ.inj hlen⟩
          exact ⟨j :: front, i, rfl, ⟨Bool.and_eq_true_iff.2 ⟨hword, hfront.1⟩,
            congrArg Nat.succ hfront.2⟩, hi⟩

theorem Join.Kind.Spans.opens {kind : Join.Kind} (h : kind.Spans items) :
    Opens catalog every items := by
  rcases h with ⟨-, t, rfl, ht⟩ | ⟨-, words, hform, hspelled⟩
  · have hkind : (Item.token t).kind? = some .comma := congrArg some ht
    have hspells := Item.spells_eq_false (i := .token t) (by simp [hkind])
    exact .one (by simp [Item.opensTable, Item.hasKind, hkind]) ⟨hspells "UNION", hspells "FROM"⟩
      (Item.depthAfter_of_kind (by simp [hkind]) (by simp [hkind]) 0)
  · have hforms : ∀ form ∈ Join.Kind.forms, ∃ front ∈ form.2.inits,
        ∃ last ∈ ["JOIN", "STRAIGHT_JOIN"], form.2 = front ++ [last] ∧
          ∀ word ∈ front, ∀ scanned ∈ scannedWords,
            Text.sameWord word.toList scanned.toList = false := by
      decide
    obtain ⟨front, -, last, hlast, rfl, hfront⟩ := hforms _ hform
    obtain ⟨items, i, rfl, hwords, hi⟩ := hspelled.exists_last
    have hopens : i.opensTable = true := by
      rw [List.mem_pair] at hlast
      rcases hlast with rfl | rfl <;> simp [Item.opensTable, hi]
    have hheads : ∀ last ∈ ["JOIN", "STRAIGHT_JOIN"],
        Text.sameWord last.toList "UNION".toList = false ∧
          Text.sameWord last.toList "FROM".toList = false := by decide
    refine Opens.append (.one hopens ?_ (Item.depthAfter_of_spells hi 0)) (.words hwords hfront)
    simpa [Item.spells_eq hi] using hheads last hlast

theorem Item.not_spells_as {i : Item} {name : Text} (h : i.freeName? = some name) :
    i.spells "AS" = false :=
  spells_of_freeName? h (by decide)

theorem AliasName.effectiveName {aliasName : Option Text} (h : AliasName aliasName items)
    (i : Item) : effectiveName i items = aliasName.getD i.text := by
  cases h with
  | none => rfl
  | bare hj => simp [SoftDelete.effectiveName, Item.not_spells_as hj, hj]
  | as hkeyword hj => simp [SoftDelete.effectiveName, hkeyword, hj]

theorem Reference.target_of_name {r : Reference} {name : Text} (h : r.name = some name)
    (hmem : catalog.contains name = true) : r.target catalog = some (r.aliasName.getD name) := by
  rw [target, h]
  simp only [Option.any_some, hmem, if_true, visibleName, h]
  cases r.aliasName <;> rfl

theorem mentioned?_subselect {gap text body : Text} :
    mentioned? catalog (.subselect gap text body) items = none := by
  simp [mentioned?, Item.namesTable]

theorem mentioned?_dot {i j : Item} (hj : j.hasKind .dot = true) :
    mentioned? catalog i (j :: items) = none := by
  simp [mentioned?, hj]

theorem Reference.Spans.exists_first {r : Reference} {start : Nat} (h : r.Spans start items)
    (catalog : Catalog) (every : Bool) :
    ∃ i later, items = i :: later ∧ i.Flat ∧ Silent catalog every 0 0 later ∧
      (mentioned? catalog i later).toList.Sublist (r.target catalog).toList := by
  obtain ⟨table, tail, rfl, htable, htail⟩ := h.derives
  generalize hname : r.name = name at htable
  cases htable with
  | @subselect gap text body =>
      refine ⟨_, tail, rfl, .subselect, htail.silent, ?_⟩
      simp [mentioned?_subselect]
  | named hparts =>
      obtain ⟨i, text, xs, later, rfl, rfl, hi, hlater⟩ := hparts
      have hnames : Silent catalog every 0 0 later :=
        hlater.silent (fun hlink => .dot (hasKind_of_mark? hlink)) Named.silent
      have hsilent : Silent catalog every 0 0 (later ++ tail) := hnames.append htail.silent
      refine ⟨i, later ++ tail, rfl, .of_freeName? hi, hsilent, ?_⟩
      cases hlater with
      | nil =>
          obtain ⟨t, rfl, hcan, rfl⟩ := Item.freeName?_eq_some hi
          unfold mentioned?
          split
          · rename_i hmentions
            have hmem : catalog.contains t.text = true := by
              simpa [Item.namesTable, hcan] using (Bool.and_eq_true_iff.1 hmentions).1
            have htarget : r.target catalog = some (r.aliasName.getD t.text) :=
              r.target_of_name (by simpa [Text.joined] using hname) hmem
            have heffective := htail.effectiveName (.token t)
            simp [htarget, heffective, Item.text]
          · exact List.nil_sublist _
      | cons hdot _ _ => simp [mentioned?_dot (hasKind_of_mark? hdot)]

theorem Reference.Spans.exists_found {r : Reference} {start : Nat} (h : r.Spans start items)
    (hrest : Barred rest) {s : Scan} (hs : s.Expects) :
    ∃ (s' : Scan) (found : List Text), s'.Behind 0 ∧ found.Sublist (r.target catalog).toList ∧
      s.demands catalog every (items ++ rest) = found ++ s'.demands catalog every rest := by
  obtain ⟨i, later, hitems, hi, hlater, hfound⟩ := h.exists_first catalog every
  rw [hitems]
  obtain ⟨s', hs', hdemands⟩ := hlater (s.next every i (later ++ rest)) rest (hs.next hi _)
  refine ⟨s', s.demand catalog every i (later ++ rest), hs', ?_, ?_⟩
  · have hdemand := s.demand_sublist catalog every i (later ++ rest)
    rw [hrest.mentioned?_append] at hdemand
    exact hdemand.trans hfound
  · rw [List.cons_append, Scan.demands, hdemands]

theorem Join.ListSpans.demands_sublist {start : Nat} {js : List Join}
    (h : Join.ListSpans start items js) {s : Scan} (hs : s.Behind 0) :
    (s.demands catalog every items).Sublist
      (js.flatMap fun j => (j.table.target catalog).toList) := by
  induction h generalizing s with
  | nil => exact List.nil_sublist _
  | @cons start items rest j js hfirst hrest ih =>
      obtain @⟨keyword, table, own, _, hkeyword, -, htable, hown, -⟩ := hfirst
      -- The keywords open a place for the table, and what it is joined by is passed over.
      have hbarred : Barred (own ++ rest) := Barred.clause hown (Barred.joins hrest)
      obtain ⟨s₁, hs₁, hdemands₁⟩ := hkeyword.opens s (table ++ (own ++ rest)) hs
      obtain ⟨s₂, found, hs₂, hfound, hdemands₂⟩ := htable.exists_found hbarred hs₁
      obtain ⟨s₃, hs₃, hdemands₃⟩ := hown.silent s₂ rest hs₂
      rw [List.append_assoc, List.append_assoc, hdemands₁, hdemands₂, hdemands₃, List.flatMap_cons]
      exact hfound.append (ih hs₃)

theorem References.Spans.demands_sublist {r : References} {start : Nat} {head rest : List Item}
    (h : r.Spans start head rest) (catalog : Catalog) (every : Bool) {s : Scan} (hs : s.Expects) :
    (s.demands catalog every (head ++ rest)).Sublist
      (r.tables.flatMap fun table => (table.target catalog).toList) := by
  obtain ⟨s', found, hs', hfound, hdemands⟩ := h.first.exists_found (Barred.joins h.joins) hs
  rw [hdemands, tables, List.flatMap_cons, List.flatMap_map]
  exact hfound.append (h.joins.demands_sublist hs')

end Tables

end SoftDelete
