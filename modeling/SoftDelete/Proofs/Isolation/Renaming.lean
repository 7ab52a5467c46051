import SoftDelete.Proofs.Coverage.Scan
import SoftDelete.Proofs.Isolation.Swap
import SoftDelete.Proofs.Sql.Ending

namespace SoftDelete

def BehindWhere (items : List Item) : Prop :=
  ∃ earlier opening own, items = earlier ++ opening :: own ∧ opening.spells "WHERE" = true ∧
    depthOver 0 earlier = 0 ∧ Avoids "UNION" 0 own ∧ Avoids "FROM" 0 own

structure IsPlain (catalog : Catalog) (w : Text) : Prop where
  unregistered : catalog.contains w = false
  uncut : ∀ word ∈ cutWords, Text.sameWord w word.toList = false

namespace IsPlain

variable {catalog : Catalog} {w v : Text}

theorem spells (h : IsPlain catalog w) (gap : Text) {word : String} (hword : word ∈ cutWords) :
    (Item.token ⟨gap, .word, w⟩).spells word = false := by
  simp [Item.spells, Token.spells, h.uncut word hword]

theorem sameCuts (hw : IsPlain catalog w) (hv : IsPlain catalog v) (gap : Text) :
    (Item.token ⟨gap, .word, w⟩).SameCuts (.token ⟨gap, .word, v⟩) where
  kind? := rfl
  spells _ hword := (hw.spells gap hword).trans (hv.spells gap hword).symm

theorem namesTable (h : IsPlain catalog w) (gap : Text) :
    (Item.token ⟨gap, .word, w⟩).namesTable catalog = false := by
  simp [Item.namesTable, h.unregistered]

end IsPlain

def InCondition (slots : Pattern Item) : Prop :=
  holes slots = 0 ∨ ∃ pre post, slots = pre.map some ++ none :: post ∧ holes post = 0 ∧ BehindWhere pre

theorem holes_referencesOf_le (f : Item) (body : Pattern Item) :
    holes (referencesOf f body) ≤ holes body :=
  holes_le_of_sublist ((List.take_sublist _ _).trans ((List.tail_sublist _).trans
    (List.drop_sublist _ _)))

section Conditions

variable {f : Item} {pre earlier own : List Item} {opening : Item} {rest : Pattern Item}

theorem BehindWhere.avoids_append (hopening : opening.spells "WHERE" = true)
    (hdepth : depthOver 0 earlier = 0) {word : String}
    (hword : Text.sameWord "WHERE".toList word.toList = false) (h : Avoids word 0 earlier)
    (hown : Avoids word 0 own) : Avoids word 0 (earlier ++ opening :: own) := by
  refine h.append ?_
  rw [hdepth]
  refine ⟨fun _ => (Item.spells_eq hopening word).trans hword, ?_⟩
  rwa [Item.depthAfter_of_spells hopening]

theorem holes_referencesOf_of_avoids {front : Pattern Item} (h : Avoids "FROM" 0 (fill f front))
    (hrest : holes rest = 0) : holes (referencesOf f (front ++ rest)) = 0 := by
  have hlength := length_le_breakAt h (fill f rest)
  rw [← fill_append, fill_length] at hlength
  refine Nat.eq_zero_of_le_zero (hrest ▸ holes_le_of_sublist ?_)
  rw [referencesOf, List.drop_append, List.drop_eq_nil_of_le hlength, List.nil_append]
  exact (List.take_sublist _ _).trans ((List.tail_sublist _).trans (List.drop_sublist _ _))

theorem holes_referencesOf_of_where {front back : List Item} {i : Item}
    (hbreak : ∀ later, (breakAt (startsWithWords ["FROM"]) 0 (front ++ i :: back ++ later)).1 = front)
    (hback : depthOver 0 back = 0) (hopening : opening.spells "WHERE" = true) :
    holes (referencesOf f ((front ++ i :: back).map some ++ some opening :: rest)) = 0 := by
  have hends : endsReferences (opening :: fill f rest) = true := by
    simp [endsReferences, startsWithWords, hopening]
  have hlength := breakAt_length_le hback hends (by simp)
  have hbody : fill f ((front ++ i :: back).map some ++ some opening :: rest) =
      front ++ i :: back ++ opening :: fill f rest := by simp
  have hbehind : (((front ++ i :: back).map some ++ some opening :: rest).drop front.length).tail =
      back.map some ++ some opening :: rest := by simp
  have hfill : fill f (back.map some ++ some opening :: rest) = back ++ opening :: fill f rest := by
    simp
  rw [referencesOf, hbody, hbreak, hbehind, hfill,
    List.take_append_of_le_length (by simpa using hlength)]
  exact Nat.eq_zero_of_le_zero
    ((holes_le_of_sublist (List.take_sublist _ _)).trans_eq (holes_map_some back))

theorem holes_referencesOf (hf : f.spells "FROM" = false) (hpre : BehindWhere pre)
    (hrest : holes rest = 0) : holes (referencesOf f (pre.map some ++ none :: rest)) = 0 := by
  obtain ⟨earlier, opening, own, rfl, hopening, hearlier, -, hown⟩ := hpre
  by_cases havoids : Avoids "FROM" 0 earlier
  -- There is no `FROM` up to the open place, and what is open is none.
  · have hpre : Avoids "FROM" 0 (earlier ++ opening :: own) :=
      BehindWhere.avoids_append hopening hearlier (by decide) havoids hown
    have hall : Avoids "FROM" 0 (fill f ((earlier ++ opening :: own).map some ++ [none])) := by
      rw [fill_append, fill_map_some]
      exact hpre.append ⟨fun _ => hf, trivial⟩
    simpa using holes_referencesOf_of_avoids hall hrest
  · obtain ⟨front, i, back, rfl, hi, hfront, hbreak⟩ := exists_of_not_avoids havoids
    rw [depthOver_behind hi hfront] at hearlier
    have hall : holes (referencesOf f ((front ++ i :: back).map some ++
        some opening :: (own.map some ++ none :: rest))) = 0 :=
      holes_referencesOf_of_where hbreak hearlier hopening
    simpa using hall

theorem BehindWhere.later {front later : List Item} {i : Item}
    (h : BehindWhere (front ++ i :: later)) (hi : i.spells "UNION" = true)
    (hfront : depthOver 0 front = 0) : BehindWhere later := by
  obtain ⟨earlier, opening, own, heq, hopening, hearlier, hunion, hfrom⟩ := h
  have hne : i ≠ opening := by
    rintro rfl
    rw [Item.spells_eq hopening] at hi
    exact absurd hi (by decide)
  obtain ⟨as, rfl, hlater⟩ | ⟨bs, rfl, hown⟩ := List.append_eq_append_iff.1 heq
  · cases as with
    | nil => exact absurd (List.cons.inj hlater).1 hne
    | cons j as =>
        obtain ⟨rfl, rfl⟩ := List.cons.inj hlater
        rw [depthOver_behind hi hfront] at hearlier
        exact ⟨as, opening, own, rfl, hopening, hearlier, hunion, hfrom⟩
  · cases bs with
    | nil => exact absurd (List.cons.inj hown).1.symm hne
    | cons j bs =>
        obtain ⟨rfl, rfl⟩ := List.cons.inj hown
        rw [depthOver_behind hopening hearlier] at hfront
        have hword := (Avoids.of_append hunion).2.1 hfront
        rw [hi] at hword
        cases hword

theorem keepsOut_of_word {g : Item} (hfrom : f.spells "FROM" = false)
    (hunion : f.spells "UNION" = false) : KeepsOut f g InCondition where
  body := by
    intro body rest hP _
    have hclosed : holes body = 0 → Unread f g (referencesOf f body) := fun hnone =>
      .inr (Nat.eq_zero_of_le_zero ((holes_referencesOf_le f body).trans_eq hnone))
    obtain hnone | ⟨pre, post, heq, hpost, hpre⟩ := hP
    · rw [holes_append] at hnone
      exact hclosed (Nat.eq_zero_of_add_eq_zero_right hnone)
    obtain ⟨as, hbody, -⟩ | ⟨bs, rfl, hrest⟩ := List.append_eq_append_iff.1 heq
    · have hnone := holes_map_some pre
      rw [hbody, holes_append] at hnone
      exact hclosed (Nat.eq_zero_of_add_eq_zero_right hnone)
    · cases bs with
      | nil => exact hclosed (by simp)
      | cons b bs =>
          rw [List.cons_append] at hrest
          obtain ⟨rfl, rfl⟩ := List.cons.inj hrest
          rw [holes_append] at hpost
          exact .inr (holes_referencesOf hfrom hpre (Nat.eq_zero_of_add_eq_zero_right hpost))
  later := by
    intro body rest o hP hbreak
    have hspells : (o.getD f).spells "UNION" = true := spells_of_breakAt hbreak
    obtain ⟨i, rfl⟩ : ∃ i, o = some i := by
      cases o with
      | none =>
          rw [Option.getD_none, hunion] at hspells
          cases hspells
      | some i => exact ⟨i, rfl⟩
    obtain hnone | ⟨pre, post, heq, hpost, hpre⟩ := hP
    · rw [holes_append, holes_some] at hnone
      exact .inl (Nat.eq_zero_of_add_eq_zero_left hnone)
    obtain ⟨as, hbody, hrest⟩ | ⟨bs, rfl, hrest⟩ := List.append_eq_append_iff.1 heq
    · cases as with
      | nil => cases (List.cons.inj hrest).1
      | cons j as =>
          obtain ⟨rfl, rfl⟩ := List.cons.inj hrest
          obtain ⟨front, later, rfl, rfl, hmap⟩ := List.map_eq_append_iff.1 hbody
          obtain ⟨j, later, rfl, hj, rfl⟩ := List.map_eq_cons_iff.1 hmap
          cases hj
          rw [fill_map_some] at hbreak
          exact .inr ⟨later, post, rfl, hpost, hpre.later hspells (depthOver_breakAt hbreak)⟩
    · cases bs with
      | nil => cases (List.cons.inj hrest).1
      | cons b bs =>
          rw [List.cons_append] at hrest
          obtain ⟨rfl, rfl⟩ := List.cons.inj hrest
          rw [holes_append, holes_some] at hpost
          exact .inl (Nat.eq_zero_of_add_eq_zero_left hpost)

end Conditions

section Items

theorem depthOver_alike {xs ys : List Item} (h : List.Forall₂ Item.Alike xs ys) (depth : Nat) :
    depthOver depth xs = depthOver depth ys := by
  induction h generalizing depth with
  | nil => rfl
  | @cons i j xs ys hij _ ih =>
      change depthOver (i.depthAfter depth) xs = depthOver (j.depthAfter depth) ys
      rw [hij.looks.depthAfter, ih]

theorem Avoids.alike {word : String} {xs ys : List Item} {depth : Nat} (hxs : Avoids word depth xs)
    (h : List.Forall₂ Item.Alike xs ys) : Avoids word depth ys := by
  induction h generalizing depth with
  | nil => exact trivial
  | cons hij _ ih =>
      refine ⟨fun hdepth => (hij.looks.spells word).symm.trans (hxs.1 hdepth), ih ?_⟩
      rw [← hij.looks.depthAfter]
      exact hxs.2

theorem BehindWhere.alike {xs ys : List Item} (hxs : BehindWhere xs)
    (h : List.Forall₂ Item.Alike xs ys) : BehindWhere ys := by
  obtain ⟨earlier, opening, own, rfl, hopening, hearlier, hunion, hfrom⟩ := hxs
  have hfront := List.forall₂_take earlier.length h
  have hback := List.forall₂_drop earlier.length h
  rw [List.take_left] at hfront
  rw [List.drop_left] at hback
  obtain ⟨opening', own', hsame, hrest, heq⟩ := List.forall₂_cons_left_iff.1 hback
  refine ⟨ys.take earlier.length, opening', own', ?_, ?_, ?_, hunion.alike hrest, hfrom.alike hrest⟩
  · rw [← heq, List.take_append_drop]
  · rw [← hsame.looks.spells, hopening]
  · rw [← depthOver_alike hfront, hearlier]

theorem itemsOf_alike {nested : Nat → Text → Attempt Text} {offset : Nat} {segs : List Segment}
    {items : List Item} (h : (itemsOf nested offset segs).result = .ok items) :
    List.Forall₂ Item.Alike (segs.map Segment.item) items := by
  induction segs generalizing offset items with
  | nil =>
      cases h
      exact .nil
  | cons s segs ih =>
      cases s with
      | token t =>
          obtain ⟨later, hlater, rfl, -⟩ := itemsOf_token h
          exact .cons (.same _) (ih hlater)
      | subselect opening inner closing =>
          obtain ⟨start, stop, body, later, -, hlater, rfl, -⟩ := itemsOf_subselect h
          exact .cons .subselects (ih hlater)

end Items

inductive Renamed (w v : Text) : Text → Text → Prop where
  | here {sql sql' gap tail : Text} {before after : List Segment} {unclosed : List Token}
      (h : CutInto sql (before ++ .token ⟨gap, .word, w⟩ :: after) unclosed tail)
      (h' : CutInto sql' (before ++ .token ⟨gap, .word, v⟩ :: after) unclosed tail)
      (hwhere : BehindWhere (before.map Segment.item)) : Renamed w v sql sql'
  | inside {sql sql' tail : Text} {before after : List Segment} {opening closing : Token}
      {ts ts' unclosed : List Token}
      (h : CutInto sql (before ++ .subselect opening ts closing :: after) unclosed tail)
      (h' : CutInto sql' (before ++ .subselect opening ts' closing :: after) unclosed tail)
      (hinner : Renamed w v (sourceOf ts ++ closing.gap) (sourceOf ts' ++ closing.gap)) :
      Renamed w v sql sql'

def SameBut (w v : Text) (s s' : Text) : Prop :=
  ∃ front back, s = front ++ (w ++ back) ∧ s' = front ++ (v ++ back)

theorem Renamed.sameBut {w v sql sql' : Text} (h : Renamed w v sql sql') : SameBut w v sql sql' := by
  induction h with
  | @here _ _ gap tail before after unclosed h h' _ =>
      refine ⟨before.flatMap Segment.source ++ gap,
        sourceOf (after.flatMap Segment.tokens ++ unclosed) ++ tail, ?_, ?_⟩
      · rw [h.source_eq]
        simp [sourceOf_segments, Segment.tokens, Token.source]
      · rw [h'.source_eq]
        simp [sourceOf_segments, Segment.tokens, Token.source]
  | @inside _ _ tail before after opening closing ts ts' unclosed h h' _ ih =>
      have hsource : ∀ {us : List Token} {t : Text},
          CutInto t (before ++ .subselect opening us closing :: after) unclosed tail →
            t = before.flatMap Segment.source ++ (opening.source ++ ((sourceOf us ++ closing.gap) ++
              (closing.text ++ (sourceOf (after.flatMap Segment.tokens ++ unclosed) ++ tail)))) := by
        intro us t ht
        rw [ht.source_eq]
        simp [sourceOf_segments, Segment.tokens, Token.source]
      obtain ⟨front, back, hinner, hinner'⟩ := ih
      refine ⟨before.flatMap Segment.source ++ (opening.source ++ front),
        back ++ (closing.text ++ (sourceOf (after.flatMap Segment.tokens ++ unclosed) ++ tail)),
        ?_, ?_⟩
      · rw [hsource h, hinner]
        simp
      · rw [hsource h', hinner']
        simp

theorem filterLevel_renamed (catalog : Catalog) (options : Options) {w v sql sql' : Text}
    (hw : IsPlain catalog w) (hv : IsPlain catalog v) (h : Renamed w v sql sql')
    (room depth offset : Nat) :
    Agree (fun p q => SameBut w v p.1 q.1 ∧ p.2 = q.2)
      (filterLevel catalog options room depth offset sql).yield
      (filterLevel catalog options room depth offset sql').yield := by
  induction h generalizing room depth offset with
  | @here sql sql' gap tail before after unclosed h h' hwhere =>
      have hfits : ∀ {x t : Text}, CutInto t (before ++ .token ⟨gap, .word, x⟩ :: after) unclosed tail →
          Fits gap (.token ⟨gap, .word, x⟩) := by
        intro x t ht
        obtain ⟨r, hr⟩ := ht.stands (t := ⟨gap, .word, x⟩) (by simp [Segment.tokens])
        exact ⟨rfl, hr.lexeme.text_ne_nil, fun c hc => hr.lexeme.last_not_blank hc⟩
      have hswap : Swap catalog gap InCondition (.token ⟨gap, .word, w⟩) (.token ⟨gap, .word, v⟩) :=
        ⟨⟨hfits h, hfits h'⟩, hw.sameCuts hv gap, (hw.namesTable gap).trans (hv.namesTable gap).symm,
          keepsOut_of_word (hw.spells gap (by simp [cutWords])) (hw.spells gap (by simp [cutWords]))⟩
      have hlevel := filterLevel_swap catalog options h h' gap room depth offset
        (P := InCondition) (R := fun p q => p = (w, []) ∧ q = (v, []))
        (fun {items more} hitems => .inr ⟨items, more.map some, rfl, by simp,
          hwhere.alike (itemsOf_alike hitems)⟩)
        (fun _ _ => .ok ⟨_, _, rfl, rfl, hswap, rfl, rfl⟩)
      refine hlevel.mono ?_
      rintro _ _ ⟨left, right, earlier, later, _, _, ⟨rfl, rfl⟩, rfl, rfl⟩
      exact ⟨⟨left, right, rfl, rfl⟩, rfl⟩
  | @inside sql sql' tail before after opening closing ts ts' unclosed h h' hinner ih =>
      have hnested : Agree (fun p q => SameBut w v p.1 q.1 ∧ p.2 = q.2)
          (nestedFilter catalog options room depth 0 (sourceOf ts ++ closing.gap)).yield
          (nestedFilter catalog options room depth 0 (sourceOf ts' ++ closing.gap)).yield := by
        cases room with
        -- A sub-select that is nested too deep stays as it is, and so does the word in it.
        | zero => exact .ok ⟨hinner.sameBut, rfl⟩
        | succ room => exact ih room (depth + 1) 0
      refine (filterLevel_swap_subselect catalog options h h' room depth offset 0 hnested).mono ?_
      rintro _ _ ⟨left, right, earlier, later, _, _, ⟨⟨_, names⟩, ⟨_, _⟩, ⟨⟨front, back, rfl, rfl⟩, rfl⟩,
        rfl, rfl⟩, rfl, rfl⟩
      exact ⟨⟨left ++ '(' :: front, back ++ ')' :: right, by simp, by simp⟩, rfl⟩

end SoftDelete
