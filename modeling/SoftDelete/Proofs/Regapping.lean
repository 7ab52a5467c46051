import SoftDelete.Proofs.Join.Likeness
import SoftDelete.Proofs.Rebuilding

namespace SoftDelete

open Piece

inductive Item.Regapped : Item → Item → Prop where
  | intro {gap gap' text : Text} {kind : Token.Kind} :
      Regapped (.token ⟨gap, kind, text⟩) (.token ⟨gap', kind, text⟩)

theorem Item.regapped_likeness : Likeness Item.Regapped Eq where
  looks h := by
    cases h
    exact .token
  same _ := rfl
  misfit h what := by
    cases h with
    | nil => rfl
    | cons hhead _ =>
        cases hhead
        rfl
  leftmost h := congrArg Failure.inLeftmost h

theorem Item.forall₂_regapped {ts us : List Token}
    (h : ts.map Token.bare = us.map Token.bare) :
    List.Forall₂ Regapped (ts.map Item.token) (us.map Item.token) := by
  induction ts generalizing us with
  | nil =>
      obtain rfl := List.map_eq_nil_iff.1 h.symm
      exact .nil
  | cons t ts ih =>
      obtain ⟨u, us, rfl, hbare, hrest⟩ := List.map_eq_cons_iff.1 h.symm
      obtain ⟨gap, kind, text⟩ := t
      obtain ⟨gap', kind', text'⟩ := u
      obtain ⟨-, rfl, rfl⟩ := Token.mk.inj hbare
      exact .cons .intro (ih hrest.symm)

section Parts

variable {A : Item → Item → Prop} (looks : ∀ {i j}, A i j → i.Looks j)

include looks

theorem opensClause_looks {items items' : List Item} (h : List.Forall₂ A items items') :
    opensClause items = opensClause items' := by
  have hheads : ∀ words : List String, _ := fun words => startsWithWords_looks looks words h
  cases h with
  | nil => rfl
  | cons hhead hrest =>
      simp only [opensClause, List.head?_cons, Option.any_some, (looks hhead).hasKind, hheads]

theorem endsReferences_looks {items items' : List Item} (h : List.Forall₂ A items items') :
    endsReferences items = endsReferences items' := by
  rw [endsReferences, endsReferences, startsWithWords_looks looks _ h, opensClause_looks looks h]

theorem namesTable_looks (catalog : Catalog) {items items' : List Item}
    (h : List.Forall₂ A items items') :
    items.any (Item.namesTable catalog) = items'.any (Item.namesTable catalog) := by
  induction h with
  | nil => rfl
  | cons hhead _ ih => rw [List.any_cons, List.any_cons, (looks hhead).namesTable, ih]

theorem BodyParts.exists_alike {body body' front items after : List Item} {f : Item}
    (hparts : BodyParts body front f items after) (h : List.Forall₂ A body body') :
    ∃ front' f' items' after', BodyParts body' front' f' items' after' ∧
      List.Forall₂ A front front' ∧ A f f' ∧ List.Forall₂ A items items' ∧
      List.Forall₂ A after after' := by
  obtain ⟨hfront, hrest⟩ := breakAt_looks looks (startsWithWords_looks looks ["FROM"]) 0 h
  rw [hparts.front_eq] at hfront hrest
  rcases exists_parts body' with hnone | ⟨front', f', items', after', hparts'⟩
  · rw [hnone] at hrest
    cases hrest
  · rw [hparts'.front_eq] at hfront hrest
    obtain - | ⟨hf, hrest⟩ := hrest
    obtain ⟨hitems, hafter⟩ := breakAt_looks looks (endsReferences_looks looks) 0 hrest
    rw [hparts.items_eq, hparts'.items_eq] at hitems hafter
    exact ⟨front', f', items', after', hparts', hfront, hf, hitems, hafter⟩

end Parts

theorem Join.Alike.refusal_eq {j k : Join} (h : j.Alike k) : j.refusal = k.refusal := by
  have hclause := h.clause
  unfold refusal
  rw [h.kind]
  generalize j.clause = own at hclause ⊢
  generalize k.clause = own' at hclause ⊢
  cases hclause <;> rfl

theorem References.Alike.refusal_eq {r s : References} (h : r.Alike s) (plan : FilterPlan) :
    r.refusal plan = s.refusal plan := by
  have hjoins := h.joins
  unfold refusal
  generalize r.joins = js at hjoins ⊢
  generalize s.joins = ks at hjoins ⊢
  generalize plan.joins = filters
  induction hjoins generalizing filters with
  | nil => rfl
  | cons hjoin _ ih =>
      cases filters with
      | nil => rfl
      | cons targets filters =>
          by_cases hnone : targets = []
          · subst hnone
            exact ih filters
          · simp only [List.zip_cons_cons, Join.filtered_cons hnone, List.findSome?_cons,
              hjoin.refusal_eq, ih filters]

theorem References.Alike.edits_agree {r s : References} (h : r.Alike s) (l l' : Level)
    (column : Text) (plan : FilterPlan) :
    AgreeUpTo Eq (fun _ _ => True) (r.edits l column plan) (s.edits l' column plan) := by
  have hleft := r.edits_refused l column plan
  have hright := s.edits_refused l' column plan
  rw [← h.refusal_eq plan] at hright
  cases hrefusal : r.refusal plan with
  | some name =>
      simp only [hrefusal] at hleft hright
      rw [hleft, hright]
      exact .error rfl
  | none =>
      simp only [hrefusal] at hleft hright
      obtain ⟨es, hes⟩ := hleft
      obtain ⟨es', hes'⟩ := hright
      rw [hes, hes']
      exact .ok trivial

def SameRow (column : Text) (ms ns : List Mark) : Prop :=
  ms.flatMap (Mark.written column) = ns.flatMap (Mark.written column)

namespace SameRow

variable {column : Text} {ms ns ms' ns' : List Mark}

theorem refl (ms : List Mark) : SameRow column ms ms := rfl

theorem append (h : SameRow column ms ns) (h' : SameRow column ms' ns') :
    SameRow column (ms ++ ms') (ns ++ ns') := by
  rw [SameRow, List.flatMap_append, List.flatMap_append, h, h']

theorem cons (m : Mark) (h : SameRow column ms ns) : SameRow column (m :: ms) (m :: ns) :=
  (refl [m]).append h

end SameRow

def Piece.Regapped {column : Text} (p q : Piece column) : Prop :=
  p.item.Regapped q.item

section Rows

variable {column : Text} {ps qs : List (Piece column)} (h : List.Forall₂ Piece.Regapped ps qs)

theorem regapped_items :
    List.Forall₂ Item.Regapped (ps.map item) (qs.map item) ↔ List.Forall₂ Piece.Regapped ps qs := by
  rw [List.forall₂_map_left_iff, List.forall₂_map_right_iff]
  rfl

theorem Piece.Regapped.exists_given {p q : Piece column} (h : p.Regapped q) :
    ∃ t u : Token, t.bare = u.bare ∧ p.given = [t] ∧ q.given = [u] ∧ p.marks = [.own t] ∧
      q.marks = [.own u] := by
  unfold Piece.Regapped at h
  generalize hp : p.item = i at h
  generalize hq : q.item = j at h
  obtain @⟨gap, gap', text, kind⟩ := h
  obtain ⟨hgiven, -, hmarks⟩ := p.ofToken _ hp
  obtain ⟨hgiven', -, hmarks'⟩ := q.ofToken _ hq
  exact ⟨⟨gap, kind, text⟩, ⟨gap', kind, text⟩, rfl, hgiven, hgiven', hmarks, hmarks'⟩

include h

theorem sameRow_allMarks : SameRow column (allMarks ps) (allMarks qs) := by
  induction h with
  | nil => rfl
  | cons hhead _ ih =>
      obtain ⟨t, u, hbare, -, -, hmarks, hmarks'⟩ := hhead.exists_given
      have hfirst : SameRow column [.own t] [.own u] := by simp [SameRow, Mark.written, hbare]
      simpa [allMarks, hmarks, hmarks'] using hfirst.append ih

theorem sameRow_clauseMarks (targets : List Text) :
    SameRow column (clauseMarks targets ps) (clauseMarks targets qs) := by
  cases h with
  | nil => rfl
  | cons hhead hrest =>
      obtain ⟨t, u, -, hgiven, hgiven', -, -⟩ := hhead.exists_given
      have hon : SameRow column [.on t] [.on u] := rfl
      have hown := (sameRow_allMarks hrest).append (.refl [.closing])
      rw [clauseMarks, clauseMarks, hgiven, hgiven']
      exact hon.append ((SameRow.refl _).append ((hown.cons .opening).cons (.keyword "AND")))

theorem sameRow_marks {j k : Join} (hjoin : j.Alike k) (targets : List Text) :
    SameRow column (j.marks targets ps) (k.marks targets qs) := by
  have hhead : ∀ {ps qs : List (Piece column)}, List.Forall₂ Piece.Regapped ps qs →
      SameRow column (headMarks k.kind ps) (headMarks k.kind qs) := by
    intro ps qs h
    unfold headMarks
    split
    · rfl
    · exact sameRow_allMarks h
  simp only [Join.marks, hjoin.kind, hjoin.table, hjoin.keywordItems]
  have hrest := List.forall₂_drop k.keywordItems.size h
  exact (hhead (List.forall₂_take _ h)).append
    ((sameRow_allMarks (List.forall₂_take _ hrest)).append
      (sameRow_clauseMarks (List.forall₂_drop _ hrest) targets))

theorem sameRow_listMarks {js ks : List Join} (hjoins : List.Forall₂ Join.Alike js ks)
    (filters : List (List Text)) :
    SameRow column (Join.listMarks (js.zip filters) ps) (Join.listMarks (ks.zip filters) qs) := by
  induction hjoins generalizing filters ps qs with
  | nil => rfl
  | cons hjoin _ ih =>
      cases filters with
      | nil => rfl
      | cons targets filters =>
          simp only [List.zip_cons_cons, Join.listMarks, hjoin.items]
          refine SameRow.append ?_ (ih (List.forall₂_drop _ h) filters)
          split
          · exact sameRow_allMarks (List.forall₂_take _ h)
          · exact sameRow_marks (List.forall₂_take _ h) hjoin targets

theorem References.Alike.sameRow {r s : References} (halike : r.Alike s) (plan : FilterPlan) :
    SameRow column (r.marks plan ps) (s.marks plan qs) := by
  unfold marks
  rw [halike.first]
  exact (sameRow_allMarks (List.forall₂_take _ h)).append
    (sameRow_listMarks (List.forall₂_drop _ h) halike.joins plan.joins)

theorem sameRow_whereMarks (target : Text) :
    SameRow column (whereMarks target ps) (whereMarks target qs) := by
  cases h with
  | nil => rfl
  | @cons p q ps qs hhead hrest =>
      have hall := sameRow_allMarks (.cons hhead hrest)
      have hfirst : SameRow column p.marks q.marks := by
        simpa [allMarks] using sameRow_allMarks (.cons hhead .nil)
      have hcut := (breakAt_looks Item.regapped_likeness.looks
        (opensClause_looks Item.regapped_likeness.looks) 0 (regapped_items.2 hrest)).1.length_eq
      simp only [whereMarks, (Item.regapped_likeness.looks hhead).spells, hcut]
      split
      · refine hfirst.append (SameRow.append ?_ (sameRow_allMarks (List.forall₂_drop _ hrest)))
        split
        · rfl
        · exact ((sameRow_allMarks (List.forall₂_take _ hrest)).append (.refl _)).cons _
      · exact (hall.cons _).cons _

theorem sameRow_endMarks (carried : Option Text) :
    SameRow column (endMarks carried ps) (endMarks carried qs) := by
  cases carried with
  | none => exact sameRow_allMarks h
  | some target => exact sameRow_whereMarks h target

end Rows

structure SameEdits {column : Text} (pre ps pre' qs : List (Piece column)) (edit edit' : LevelEdit) :
    Prop where
  constrained : edit.constrained = edit'.constrained
  written : IsFlagWord column → ∃ d d', Drafts pre ps edit d ∧ Drafts pre' qs edit' d' ∧
    SameRow column d.marks d'.marks

namespace SameEdits

variable {column : Text} {pre pre' ps ps' qs qs' : List (Piece column)}
  {edit edit' more more' : LevelEdit}

theorem kept (pre pre' : List (Piece column)) (h : List.Forall₂ Piece.Regapped ps ps') :
    SameEdits pre ps pre' ps' ⟨[], []⟩ ⟨[], []⟩ :=
  ⟨rfl, fun _ => ⟨_, _, .kept pre ps, .kept pre' ps', sameRow_allMarks h⟩⟩

theorem append (h : SameEdits pre ps pre' ps' edit edit')
    (h' : SameEdits (pre ++ ps) qs (pre' ++ ps') qs' more more') :
    SameEdits pre (ps ++ qs) pre' (ps' ++ qs')
      ⟨edit.edits ++ more.edits, edit.constrained ++ more.constrained⟩
      ⟨edit'.edits ++ more'.edits, edit'.constrained ++ more'.constrained⟩ where
  constrained := by simp only [h.constrained, h'.constrained]
  written hcolumn := by
    obtain ⟨d, d', hd, hd', hrow⟩ := h.written hcolumn
    obtain ⟨e, e', he, he', hrow'⟩ := h'.written hcolumn
    exact ⟨_, _, hd.append he, hd'.append he', hrow.append hrow'⟩

end SameEdits

section Bodies

variable {options : Options} {l l' : Level} {pre pre' bs bs' : List (Piece options.column)}

theorem bodyEdit_parts_regapped (catalog : Catalog) (post post' : List (Piece options.column))
    (hpre : pre.length = pre'.length) (hitems : l.items = (pre ++ (bs ++ post)).map item)
    (hitems' : l'.items = (pre' ++ (bs' ++ post')).map item)
    {front front' refs refs' after after' : List Item} {i i' : Item}
    (hparts : BodyParts (bs.map item) front i refs after)
    (hparts' : BodyParts (bs'.map item) front' i' refs' after')
    (h : List.Forall₂ Piece.Regapped bs bs') (hfront : List.Forall₂ Item.Regapped front front')
    (hfrom : i.Regapped i') (hrefs : List.Forall₂ Item.Regapped refs refs')
    (hafter : List.Forall₂ Item.Regapped after after') :
    AgreeUpTo Eq (SameEdits pre bs pre' bs')
      (bodyEdit catalog options l pre.length (bs.map item))
      (bodyEdit catalog options l' pre'.length (bs'.map item)) := by
  have hdot : after.head?.any (Item.hasKind · .dot) = after'.head?.any (Item.hasKind · .dot) := by
    cases hafter with
    | nil => rfl
    | cons hfirst _ => exact (Item.regapped_likeness.looks hfirst).hasKind .dot
  rw [bodyEdit_of_parts catalog options l _ hparts,
    bodyEdit_of_parts catalog options l' _ hparts',
    namesTable_looks Item.regapped_likeness.looks catalog hrefs]
  split
  · obtain ⟨fs, f, os, as, rfl, rfl, rfl, rfl, rfl⟩ := hparts.exists_pieces
    obtain ⟨fs', f', os', as', rfl, rfl, rfl, rfl, rfl⟩ := hparts'.exists_pieces
    have hlength : fs'.length = fs.length := by simpa using hfront.length_eq.symm
    have hplace : pre'.length + fs'.length + 1 = pre.length + fs.length + 1 := by
      rw [← hpre, hlength]
    simp only [List.length_map]
    rw [hplace]
    refine (References.parse_likeness Item.regapped_likeness hdot Reading.maxNesting
      options.maxJoins _ hrefs).remember.bind ?_
    rintro r s ⟨halike, hparse, hparse'⟩
    -- One plan for both, so that a join is refused on both sides or on none.
    rw [← halike.plan_eq catalog]
    refine (halike.edits_agree l l' options.column (r.plan catalog)).remember.bind ?_
    rintro es es' ⟨-, hes, hes'⟩
    refine .ok ⟨rfl, fun hcolumn => ?_⟩
    rw [halike.plan_eq catalog] at hes'
    obtain ⟨d, hd, hmarks⟩ := exists_filteredPassage post hcolumn hitems hparts.spells_from hparse
      hes
    obtain ⟨d', hd', hmarks'⟩ := exists_filteredPassage post' hcolumn hitems' hparts'.spells_from
      (hplace ▸ hparse') hes'
    rw [hplace, ← halike.plan_eq catalog] at hd'
    refine ⟨d, d', hd, hd', ?_⟩
    have hbegin : List.Forall₂ Piece.Regapped (fs ++ [f]) (fs' ++ [f']) :=
      List.rel_append (regapped_items.1 hfront) (.cons hfrom .nil)
    rw [hmarks, hmarks', ← halike.plan_eq catalog]
    exact (sameRow_allMarks hbegin).append
      ((halike.sameRow (regapped_items.1 hrefs) _).append
        (sameRow_endMarks (regapped_items.1 hafter) _))
  · exact .ok (.kept pre pre' h)

theorem bodyEdit_regapped (catalog : Catalog) (post post' : List (Piece options.column))
    (hpre : pre.length = pre'.length) (hitems : l.items = (pre ++ (bs ++ post)).map item)
    (hitems' : l'.items = (pre' ++ (bs' ++ post')).map item)
    (h : List.Forall₂ Piece.Regapped bs bs') :
    AgreeUpTo Eq (SameEdits pre bs pre' bs')
      (bodyEdit catalog options l pre.length (bs.map item))
      (bodyEdit catalog options l' pre'.length (bs'.map item)) := by
  have looks := @Item.regapped_likeness.looks
  have hbody := regapped_items.2 h
  rcases exists_parts (bs.map item) with hnone | ⟨front, i, refs, after, hparts⟩
  · have hrest := (breakAt_looks looks (startsWithWords_looks looks ["FROM"]) 0 hbody).2
    rcases exists_parts (bs'.map item) with hnone' | ⟨_, _, _, _, hparts'⟩
    · rw [bodyEdit_of_noFrom catalog options l _ hnone,
        bodyEdit_of_noFrom catalog options l' _ hnone']
      exact .ok (.kept pre pre' h)
    · rw [hnone, hparts'.front_eq] at hrest
      cases hrest
  · obtain ⟨front', i', refs', after', hparts', hfront, hfrom, hrefs, hafter⟩ :=
      hparts.exists_alike looks hbody
    exact bodyEdit_parts_regapped catalog post post' hpre hitems hitems' hparts hparts' h hfront
      hfrom hrefs hafter

theorem bodyEdits_regapped (catalog : Catalog) (hpre : pre.length = pre'.length)
    (hitems : l.items = (pre ++ bs).map item) (hitems' : l'.items = (pre' ++ bs').map item)
    (h : List.Forall₂ Piece.Regapped bs bs') :
    AgreeUpTo Eq (SameEdits pre bs pre' bs')
      (bodyEdits catalog options l pre.length (bodies (bs.map item)))
      (bodyEdits catalog options l' pre'.length (bodies (bs'.map item))) := by
  have looks := @Item.regapped_likeness.looks
  -- Both levels are cut at the same `UNION`, and the bodies behind it are fewer pieces.
  induction hn : bs.length using Nat.strongRecOn generalizing pre pre' bs bs' with
  | ind n ih =>
      obtain ⟨hfront, hrest⟩ :=
        breakAt_looks looks (startsWithWords_looks looks ["UNION"]) 0 (regapped_items.2 h)
      rw [bodies_eq, bodies_eq]
      generalize hcut : breakAt _ 0 (bs.map item) = cut at hfront hrest ⊢
      generalize hcut' : breakAt _ 0 (bs'.map item) = cut' at hfront hrest ⊢
      obtain ⟨body, rest⟩ := cut
      obtain ⟨body', rest'⟩ := cut'
      cases hrest with
      | nil =>
          obtain rfl : bs.map item = body := eq_of_breakAt hcut
          obtain rfl : bs'.map item = body' := eq_of_breakAt hcut'
          refine (bodyEdit_regapped catalog [] [] hpre (by simpa using hitems)
            (by simpa using hitems') h).bind fun edit edit' hedit => .ok ?_
          simpa using hedit
      | @cons u u' rest rest' hunion hrest =>
          obtain ⟨fs, u, rs, rfl, rfl, rfl, rfl⟩ := exists_split (eq_append_of_breakAt hcut)
          obtain ⟨fs', u', rs', rfl, rfl, rfl, rfl⟩ := exists_split (eq_append_of_breakAt hcut')
          have hlength : fs.length = fs'.length := by simpa using hfront.length_eq
          have hshorter : rs.length < n := by
            simp only [← hn, List.length_append, List.length_cons]
            omega
          have hlater : AgreeUpTo Eq (SameEdits (pre ++ fs ++ [u]) rs (pre' ++ fs' ++ [u']) rs')
              (bodyEdits catalog options l (pre ++ fs ++ [u]).length (bodies (rs.map item)))
              (bodyEdits catalog options l' (pre' ++ fs' ++ [u']).length (bodies (rs'.map item))) :=
            ih _ hshorter (by simp [hpre, hlength]) (by simpa using hitems)
              (by simpa using hitems') (regapped_items.1 hrest) rfl
          have hkept : SameEdits (pre ++ fs) [u] (pre' ++ fs') [u'] ⟨[], []⟩ ⟨[], []⟩ :=
            .kept _ _ (.cons hunion .nil)
          refine (bodyEdit_regapped catalog (u :: rs) (u' :: rs') hpre (by simpa using hitems)
            (by simpa using hitems') (regapped_items.1 hfront)).bind fun edit edit' hedit => ?_
          simp only [List.length_append] at hlater
          rw [List.length_map, List.length_map]
          exact hlater.bind fun more more' hmore => .ok (hedit.append (hkept.append hmore))

end Bodies

def Lexed.level (l : Lexed) : Level :=
  ⟨l.tokens.map Item.token, l.tail⟩

def SameTokens (s s' : Text) : Prop :=
  ∃ l l', Lexed.ofText s = .ok l ∧ Lexed.ofText s' = .ok l' ∧
    l.tokens.map Token.bare = l'.tokens.map Token.bare

theorem Drafts.exists_ofText {column s : Text} {l : Lexed} {ps : List (Piece column)}
    {edit : LevelEdit} {d : Draft} (h : Drafts [] ps edit d) (hlexed : Lexed.ofText s = .ok l)
    (hitems : ps.map item = l.tokens.map Item.token) (hgivens : givens ps = l.tokens) :
    ∃ m, Lexed.ofText (l.level.outputWith edit.edits) = .ok m ∧
      m.tokens.map Token.bare = d.marks.flatMap (Mark.written column) := by
  have htokens : l.tokens = givens ps ++ [] := by rw [List.append_nil, hgivens]
  have hread := h.passage.read (lex_of_ofText hlexed) htokens
  have hedits : Chunk.edits 0 d.chunks = edit.edits := h.edits
  rw [hitems, hedits] at hread
  refine ⟨_, ofText_of_lex hread, ?_⟩
  rw [List.append_nil, h.passage.made.writtens]

theorem Level.filterEdit_of_sameTokens {s s' : Text} {l l' : Lexed}
    (hlexed : Lexed.ofText s = .ok l) (hlexed' : Lexed.ofText s' = .ok l')
    (hsame : l.tokens.map Token.bare = l'.tokens.map Token.bare) (catalog : Catalog)
    (options : Options) :
    AgreeUpTo Eq (fun edit edit' => edit.constrained = edit'.constrained ∧
        (IsFlagWord options.column →
          SameTokens (l.level.outputWith edit.edits) (l'.level.outputWith edit'.edits)))
      (l.level.filterEdit catalog options) (l'.level.filterEdit catalog options) := by
  obtain ⟨ps, hitems, hgivens⟩ :=
    exists_ownPieces options.column (readable_of_lex (lex_of_ofText hlexed)).1
  obtain ⟨qs, hitems', hgivens'⟩ :=
    exists_ownPieces options.column (readable_of_lex (lex_of_ofText hlexed')).1
  have hregapped : List.Forall₂ Piece.Regapped ps qs := by
    rw [← regapped_items, hitems, hitems']
    exact Item.forall₂_regapped hsame
  have hbodies : AgreeUpTo Eq (SameEdits [] ps [] qs)
      (bodyEdits catalog options l.level 0 (bodies (ps.map item)))
      (bodyEdits catalog options l'.level 0 (bodies (qs.map item))) :=
    bodyEdits_regapped catalog rfl hitems.symm hitems'.symm hregapped
  rw [hitems, hitems'] at hbodies
  refine hbodies.mono fun edit edit' h => ⟨h.constrained, fun hcolumn => ?_⟩
  obtain ⟨d, d', hd, hd', hrow⟩ := h.written hcolumn
  obtain ⟨m, hm, htokens⟩ := hd.exists_ofText hlexed hitems hgivens
  obtain ⟨m', hm', htokens'⟩ := hd'.exists_ofText hlexed' hitems' hgivens'
  exact ⟨m, m', hm, hm', by rw [htokens, htokens', hrow]⟩

theorem Level.filterEdit_of_sameTokens_comments :
    let s := "SELECT * FROM t, hist_a a JOIN hist_b WHERE n - -1 LIMIT 1".toList
    let s' := "SELECT*FROM t/**/,hist_a a-- a\nJOIN hist_b WHERE#\nn - /*-*/-1--\nLIMIT 1 #".toList
    let l := (Lexed.ofText s).toOption.getD ⟨[], []⟩
    let l' := (Lexed.ofText s').toOption.getD ⟨[], []⟩
    let catalog : Catalog := ⟨["hist_a".toList, "hist_b".toList]⟩
    let options : Options := ⟨"deleted".toList, 32, 64, false⟩
    (Lexed.ofText s = .ok l ∧ Lexed.ofText s' = .ok l' ∧
      l.tokens.map Token.bare = l'.tokens.map Token.bare) ∧ IsFlagWord options.column ∧
      ∃ edit edit', l.level.filterEdit catalog options = .ok edit ∧
        l'.level.filterEdit catalog options = .ok edit' ∧
        edit.constrained = ["a".toList, "hist_b".toList] ∧ edit.constrained = edit'.constrained ∧
        SameTokens (l.level.outputWith edit.edits) (l'.level.outputWith edit'.edits) := by
  intro s s' l l' catalog options
  have hlexed : Lexed.ofText s = .ok l := by decide +kernel
  have hlexed' : Lexed.ofText s' = .ok l' := by decide +kernel
  have hsame : l.tokens.map Token.bare = l'.tokens.map Token.bare := by decide +kernel
  have hcolumn : IsFlagWord options.column :=
    ⟨⟨[], .word, "deleted".toList⟩, [], by decide +kernel, rfl, closedGap_nil⟩
  have hchecks : (l.level.filterEdit catalog options).toOption.map LevelEdit.constrained =
      some ["a".toList, "hist_b".toList] := by decide +kernel
  have h := filterEdit_of_sameTokens hlexed hlexed' hsame catalog options
  refine ⟨⟨hlexed, hlexed', hsame⟩, hcolumn, ?_⟩
  generalize l.level.filterEdit catalog options = x at h hchecks ⊢
  generalize l'.level.filterEdit catalog options = y at h ⊢
  cases h with
  | error => cases hchecks
  | ok h => exact ⟨_, _, rfl, rfl, Option.some.inj hchecks, h.1, h.2 hcolumn⟩

/-- With a comment that begins in the flag column, a line break between two tokens decides what is
left of them. -/
theorem Level.filterEdit_not_of_sameTokens :
    let s := "SELECT * FROM hist_a a LIMIT 1".toList
    let s' := "SELECT * FROM hist_a a\nLIMIT 1".toList
    let l := (Lexed.ofText s).toOption.getD ⟨[], []⟩
    let l' := (Lexed.ofText s').toOption.getD ⟨[], []⟩
    let catalog : Catalog := ⟨["hist_a".toList]⟩
    let options : Options := ⟨"deleted#".toList, 32, 64, false⟩
    (Lexed.ofText s = .ok l ∧ Lexed.ofText s' = .ok l' ∧
      l.tokens.map Token.bare = l'.tokens.map Token.bare) ∧
      (∃ w tail, lex options.column = .ok ⟨[w], tail⟩ ∧ w.kind = .word) ∧
      ∃ edit edit', l.level.filterEdit catalog options = .ok edit ∧
        l'.level.filterEdit catalog options = .ok edit' ∧
        ¬ SameTokens (l.level.outputWith edit.edits) (l'.level.outputWith edit'.edits) := by
  intro s s' l l' catalog options
  refine ⟨⟨by decide +kernel, by decide +kernel, by decide +kernel⟩,
    ⟨⟨[], .word, "deleted".toList⟩, ['#'], by decide +kernel, rfl⟩, ?_⟩
  have hdiffer : (do
      let edit ← l.level.filterEdit catalog options
      let edit' ← l'.level.filterEdit catalog options
      pure (decide (tokensOf (l.level.outputWith edit.edits) =
        tokensOf (l'.level.outputWith edit'.edits)))) = .ok false := by decide +kernel
  obtain ⟨edit, hedit, hdiffer⟩ := exists_of_bind_ok hdiffer
  obtain ⟨edit', hedit', hdiffer⟩ := exists_of_bind_ok hdiffer
  refine ⟨edit, edit', hedit, hedit', ?_⟩
  rintro ⟨m, m', hm, hm', hsame⟩
  have htokens := of_decide_eq_false (Except.ok.inj hdiffer)
  rw [tokensOf, tokensOf, lex_of_ofText hm, lex_of_ofText hm'] at htokens
  exact htokens hsame

end SoftDelete
