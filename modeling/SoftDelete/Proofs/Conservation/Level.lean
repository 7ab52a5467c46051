import SoftDelete.Proofs.Conservation.Join
import SoftDelete.Proofs.Join.Walk
import SoftDelete.Proofs.Sql.Ending
import SoftDelete.Select.Body

namespace SoftDelete

open Piece

variable {column : Text} {l : Level}

theorem Level.stopOf_eq (pre post : List (Piece column)) (h : l.items = (pre ++ post).map item) :
    l.stopOf pre.length = sizeOf (allAtoms pre) := by
  have hstop := Level.stopOf_length (pre.map item) (post.map item) (by simpa using h)
  rwa [List.length_map, atoms_list] at hstop

theorem Level.before_eq {pre post : List (Piece column)} {p : Piece column}
    (h : l.items = (pre ++ p :: post).map item) :
    l.before pre.length = (allAtoms pre).flatMap Atom.source ++ p.item.gap := by
  have hbefore := Level.before_length (pre.map item) (post.map item) (by simpa using h)
  rwa [List.length_map, atoms_list] at hbefore

theorem Level.startOf_eq (pre : List (Piece column)) (p : Piece column)
    (post : List (Piece column)) (h : l.items = (pre ++ p :: post).map item) :
    l.startOf pre.length = sizeOf (allAtoms pre) + Text.byteSize p.item.gap := by
  rw [Level.startOf, Level.before_eq h, Text.byteSize_append, sizeOf]

theorem Level.itemsIn_eq (pre mid post : List (Piece column))
    (h : l.items = (pre ++ (mid ++ post)).map item) :
    l.itemsIn pre.length (pre.length + mid.length) = mid.map item := by
  have hin := Level.itemsIn_length (pre.map item) (mid.map item) (post.map item) (by simpa using h)
  rwa [List.length_map, List.length_map] at hin

theorem source_givens (ps : List (Piece column)) :
    sourceOf (givens ps) = (allAtoms ps).flatMap Atom.source := by
  induction ps with
  | nil => rfl
  | cons p ps ih =>
      change sourceOf (p.given ++ givens ps) = (p.item.atoms ++ allAtoms ps).flatMap Atom.source
      rw [sourceOf_append, List.flatMap_append, p.source, ih, Item.source_atoms]

theorem source_ne_nil {ps : List (Piece column)} (h : ps ≠ []) : sourceOf (givens ps) ≠ [] := by
  obtain ⟨p, ps, rfl⟩ := List.exists_cons_of_ne_nil h
  obtain ⟨t, ts, hgiven, -⟩ := p.exists_given
  obtain ⟨r, hr⟩ := p.stands t (by simp [hgiven])
  simp [givens, hgiven, Token.source, hr.lexeme.text_ne_nil]

theorem Join.leadingSpace_cases {pre : List (Piece column)} {p : Piece column} {j : Join}
    (post : List (Piece column)) (hpre : pre ≠ []) (h : l.items = (pre ++ p :: post).map item)
    (hj : j.items.start = pre.length) :
    j.leadingSpace l = [' '] ∨ (j.leadingSpace l = [] ∧ p.item.gap ≠ []) := by
  have hbefore := Level.before_eq h
  have hstands : ∀ t ∈ givens pre, ∃ r, t.StandsBefore r := by
    intro t ht
    obtain ⟨q, hq, ht⟩ := List.mem_flatMap.1 ht
    exact q.stands t ht
  rw [Join.leadingSpace, hj, hbefore]
  by_cases hgap : p.item.gap = []
  · rw [hgap, List.append_nil, ← source_givens]
    cases hlast : (sourceOf (givens pre)).getLast? with
    | none => exact absurd (List.getLast?_eq_none_iff.1 hlast) (source_ne_nil hpre)
    | some c =>
        have := sourceOf_last_not_blank hstands hlast
        simp [this]
  · cases hlast : ((allAtoms pre).flatMap Atom.source ++ p.item.gap).getLast? with
    | none => simp [hgap] at hlast
    | some c =>
        by_cases hc : isBlank c = true
        · exact .inr ⟨by simp [hc], hgap⟩
        · exact .inl (by simp [hc])

def ItemRange.size (r : ItemRange) : Nat :=
  r.stop - r.start

@[simp] theorem ItemRange.size_mk (start n : Nat) : ItemRange.size ⟨start, start + n⟩ = n :=
  Nat.add_sub_cancel_left start n

namespace Join

theorem Spans.range {j : Join} {start : Nat} {items : List Item} (h : j.Spans start items) :
    j.items = ⟨start, start + items.length⟩ := by
  obtain ⟨-, -, -, -, hitems⟩ := h
  exact hitems

def marks (j : Join) (targets : List Text) (ps : List (Piece column)) : List Mark :=
  let rest := ps.drop j.keywordItems.size
  headMarks j.kind (ps.take j.keywordItems.size) ++
    (allMarks (rest.take j.table.items.size) ++ clauseMarks targets (rest.drop j.table.items.size))

def listMarks : List (Join × List Text) → List (Piece column) → List Mark
  | [], _ => []
  | (j, targets) :: pairs, ps =>
      let own := ps.take j.items.size
      (if targets = [] then allMarks own else j.marks targets own) ++
        listMarks pairs (ps.drop j.items.size)

def headTokens (kind : Join.Kind) (ks : List (Piece column)) : List Token :=
  if kind = .comma then [Token.word "INNER", Token.spaced "JOIN"] else writtens ks

inductive Writes (j : Join) (targets : List Text) : List (Piece column) → List Token → Prop where
  | intro {start : Nat} {gap : Text} {ks ts os : List (Piece column)} {cw : List Token}
      (hkind : j.kind.Spans (ks.map item))
      (htable : j.table.Spans (start + ks.length) (ts.map item))
      (hown : Join.Clause.Spans (start + (ks.length + ts.length)) (os.map item) j.clause)
      (hclause : ClauseTokens column targets os cw) :
      Writes j targets (ks ++ ts ++ os)
        (regap gap (headTokens j.kind ks) ++ (regap [' '] (writtens ts) ++ cw))

inductive ListWrites :
    List (Join × List Text) → List (Piece column) → List Token → Prop where
  | nil : ListWrites [] [] []
  | kept {start : Nat} {j : Join} {pairs : List (Join × List Text)} {ps qs : List (Piece column)}
      {written : List Token} (hspans : j.Spans start (ps.map item))
      (hrest : ListWrites pairs qs written) :
      ListWrites ((j, []) :: pairs) (ps ++ qs) (writtens ps ++ written)
  | anew {j : Join} {targets : List Text} {pairs : List (Join × List Text)}
      {ps qs : List (Piece column)} {first written : List Token} (hne : targets ≠ [])
      (hfirst : j.Writes targets ps first) (hrest : ListWrites pairs qs written) :
      ListWrites ((j, targets) :: pairs) (ps ++ qs) (first ++ written)

variable {ps : List (Piece column)} {j : Join} {targets : List Text}

theorem headOf (pre post : List (Piece column)) {lead : Text} {k : Piece column}
    {ks : List (Piece column)} (hitems : l.items = (pre ++ (k :: ks ++ post)).map item)
    (hkind : j.kind.Spans ((k :: ks).map item))
    (hkeywords : j.keywordItems = ⟨pre.length, pre.length + (k :: ks).length⟩)
    (hlead : lead = [' '] ∨ (lead = [] ∧ k.item.gap ≠ [])) :
    HeadOf lead (j.keywordText l) k ks (regap (k.item.gap ++ lead) (headTokens j.kind (k :: ks)))
      (headMarks j.kind (k :: ks)) := by
  have hrange := Level.itemsIn_eq pre (k :: ks) post hitems
  rcases hkind with ⟨hcomma, t, hitem, ht⟩ | ⟨hcomma, words, -, hwords⟩
  · obtain ⟨hk, rfl⟩ : k.item = .token t ∧ ks = [] := by simpa using hitem
    simp only [keywordText, hcomma, headTokens, headMarks, if_true]
    exact headOf_comma hk ht hlead
  · have htext : j.keywordText l = outputOf ((k :: ks).map item) := by
      cases hkind : j.kind <;> simp_all [keywordText]
    rw [htext, headTokens, headMarks, if_neg hcomma, if_neg hcomma]
    refine headOf_words (fun p hp => ?_) hlead
    obtain ⟨t, ht, hkind, -⟩ := hwords.token (List.mem_map_of_mem hp)
    exact ⟨t, ht, hkind⟩

theorem exists_clauseOf (pre post : List (Piece column)) (hcolumn : IsFlagWord column)
    {os : List (Piece column)} {own : List Text}
    (hitems : l.items = (pre ++ (os ++ post)).map item)
    (hspans : Join.Clause.Spans pre.length (os.map item) j.clause) (hne : targets ≠ [])
    (htargets : ∀ target ∈ targets, IsTarget target) (hown : j.ownCondition l = .ok own) :
    ∃ written, ClauseOf (Text.joined " AND " (targets.map (filterCondition column) ++ own)) targets
      os written (clauseMarks targets os) ∧ ClauseTokens column targets os written := by
  obtain ⟨ts, hts⟩ := Conjoins.exists_of hcolumn htargets hne
  unfold ownCondition at hown
  generalize hclause : j.clause = clause at hspans hown
  generalize hos : os.map item = items at hspans
  cases hspans with
  | none =>
      obtain rfl := List.map_eq_nil_iff.1 hos
      have hown : own = [] := by
        simp only at hown
        split at hown
        · cases hown
        · cases hown
          rfl
      rw [hown, List.append_nil]
      exact ⟨_, clauseOf_filters hts, .filters hts⟩
  | @on i cond tree hon hcond =>
      obtain ⟨o, cs, rfl, rfl, rfl⟩ := List.map_eq_cons_iff.1 hos
      cases hown
      have hrange := Level.itemsIn_eq (pre ++ [o]) cs post (by simpa using hitems)
      rw [List.length_append, List.length_singleton] at hrange
      cases cs with
      | nil =>
          exact absurd rfl hcond.settles.ne_nil
      | cons c cs =>
          rw [List.length_map, hrange]
          exact ⟨_, clauseOf_own hts hon, .own hts hon⟩
  | «using» => cases hown

theorem exists_edit {pre : List (Piece column)} (post : List (Piece column))
    (hcolumn : IsFlagWord column) {e : Edit} (hpre : pre ≠ [])
    (hitems : l.items = (pre ++ (ps ++ post)).map item)
    (hspans : j.Spans pre.length (ps.map item)) (hne : targets ≠ [])
    (htargets : ∀ target ∈ targets, IsTarget target) (hedit : j.edit l column targets = .ok e) :
    ∃ chunks written, Passage Apart Calmer ps ⟨chunks, written, j.marks targets ps, targets⟩ ∧
      Chunk.edits (sizeOf (allAtoms pre)) chunks = [e] ∧ j.Writes targets ps written := by
  obtain ⟨own, hown, hedit⟩ := exists_of_bind_ok hedit
  generalize hmap : ps.map item = items at hspans
  obtain @⟨keyword, tables, owns, _, hkind, hkeywords, htable, hclause, hrange⟩ := hspans
  obtain ⟨front, os, rfl, hfront, rfl⟩ := List.map_eq_append_iff.1 hmap
  obtain ⟨ks, ts, rfl, rfl, rfl⟩ := List.map_eq_append_iff.1 hfront
  obtain ⟨k, ks, rfl⟩ : ∃ k ks', ks = k :: ks' := by
    cases ks with
    | nil => exact absurd rfl hkind.ne_nil
    | cons k ks => exact ⟨k, ks, rfl⟩
  have hlead : j.leadingSpace l = [' '] ∨ (j.leadingSpace l = [] ∧ k.item.gap ≠ []) :=
    Join.leadingSpace_cases (ks ++ (ts ++ (os ++ post))) hpre (by simpa using hitems)
      (by rw [hrange])
  simp only [List.length_map] at hkeywords htable hclause
  have hhead := headOf pre (ts ++ (os ++ post)) (by simpa using hitems) hkind hkeywords hlead
  obtain ⟨cw, hcond, htokens⟩ := exists_clauseOf (pre ++ (k :: ks ++ ts)) post hcolumn
    (by simpa using hitems) (by rwa [List.length_append, List.length_append]) hne htargets hown
  have hpassage := joinPassage hhead htable.settles hcond hne htargets
  have hmarks : j.marks targets (k :: ks ++ ts ++ os) =
      headMarks j.kind (k :: ks) ++ (allMarks ts ++ clauseMarks targets os) := by
    simp only [marks, hkeywords, htable.range, ItemRange.size_mk, List.length_map]
    rw [List.append_assoc, List.take_left, List.drop_left, List.take_left, List.drop_left]
  rw [← hmarks, ← List.append_assoc] at hpassage
  refine ⟨_, _, hpassage, ?_, .intro hkind htable hclause htokens⟩
  have hstart : l.startOf j.items.start = sizeOf (allAtoms pre) + Text.byteSize k.item.gap := by
    rw [hrange]
    exact Level.startOf_eq pre k (ks ++ (ts ++ (os ++ post))) (by simpa using hitems)
  have hstop : l.stopOf j.items.stop = sizeOf (allAtoms (pre ++ (k :: ks ++ (ts ++ os)))) := by
    have h := Level.stopOf_eq (pre ++ (k :: ks ++ (ts ++ os))) post
      (by simpa using hitems)
    rw [← h, hrange]
    simp [Nat.add_assoc]
  have htables : l.itemsIn j.table.items.start j.table.items.stop = ts.map item := by
    have h := Level.itemsIn_eq (pre ++ k :: ks) ts (os ++ post)
      (by simpa using hitems)
    rw [List.length_append] at h
    rw [htable.range, List.length_map, h]
  rw [hstart, hstop, htables] at hedit
  rw [← Except.ok.inj hedit]
  simp [Chunk.edits, allAtoms, Item.atoms_eq, Nat.add_assoc]

theorem exists_edits (pre ps post : List (Piece column))
    (hcolumn : IsFlagWord column) {js : List Join} {plan : List (List Text)} {es : List Edit}
    (hpre : pre ≠ []) (hitems : l.items = (pre ++ (ps ++ post)).map item)
    (hspans : ListSpans pre.length (ps.map item) js) (hlen : plan.length = js.length)
    (htargets : ∀ targets ∈ plan, ∀ target ∈ targets, IsTarget target)
    (hedits : ((js.zip plan).filter fun pair => !pair.2.isEmpty).mapM
      (fun pair => pair.1.edit l column pair.2) = .ok es) :
    ∃ chunks written, Passage Calmer Calmer ps
        ⟨chunks, written, listMarks (js.zip plan) ps, plan.flatten⟩ ∧
      Chunk.edits (sizeOf (allAtoms pre)) chunks = es ∧
      ListWrites (js.zip plan) ps written := by
  induction js generalizing pre ps plan es with
  | nil =>
      generalize hmap : ps.map item = items at hspans
      cases hspans
      obtain rfl := List.map_eq_nil_iff.1 hmap
      obtain rfl := List.eq_nil_of_length_eq_zero hlen
      cases hedits
      exact ⟨[], [], .nil, rfl, .nil⟩
  | cons j js ih =>
      generalize hmap : ps.map item = items at hspans
      obtain _ | @⟨_, used, rest, _, _, hfirst, hrest⟩ := hspans
      obtain ⟨qs, rs, rfl, rfl, rfl⟩ := List.map_eq_append_iff.1 hmap
      obtain ⟨targets, plan, rfl⟩ : ∃ targets plan', plan = targets :: plan' := by
        cases plan with
        | nil => cases hlen
        | cons targets plan => exact ⟨targets, plan, rfl⟩
      have hlater : ∀ {es}, ((js.zip plan).filter fun pair => !pair.2.isEmpty).mapM
          (fun pair => pair.1.edit l column pair.2) = .ok es → _ := fun h =>
        ih (pre ++ qs) rs (by simp [hpre]) (by simpa using hitems)
          (by simpa using hrest) (by simpa using hlen)
          (fun ts hts => htargets ts (by simp [hts])) h
      have hmarks : listMarks ((j :: js).zip (targets :: plan)) (qs ++ rs) =
          (if targets = [] then allMarks qs else j.marks targets qs) ++
            listMarks (js.zip plan) rs := by
        simp only [List.zip_cons_cons, listMarks, hfirst.range, ItemRange.size_mk, List.length_map]
        rw [List.take_left, List.drop_left]
      rw [hmarks]
      by_cases hnone : targets = []
      · subst hnone
        obtain ⟨chunks, written, hpassage, hes, hwrites⟩ := hlater hedits
        have hkept := Passage.of_settles hfirst.settles
        have hcalm := hkept.mono (fun _ _ hr => hr) fun _ _ hr => hr.toCalmer
        refine ⟨_, _, hcalm.append hpassage, ?_, .kept hfirst hwrites⟩
        rw [← hes, Passage.kept, Chunk.edits_append]
        simp [Chunk.edits, Chunk.atoms, allAtoms]
      · rw [List.zip_cons_cons, filtered_cons hnone, List.mapM_cons] at hedits
        obtain ⟨e, he, hedits⟩ := exists_of_bind_ok hedits
        obtain ⟨es, hes, hedits⟩ := exists_of_bind_ok hedits
        cases hedits
        obtain ⟨cs, ws, hjoin, hedit, hanew⟩ := exists_edit (rs ++ post) hcolumn hpre
          (by simpa using hitems) hfirst hnone (htargets targets (by simp)) he
        obtain ⟨chunks, written, hpassage, hes, hwrites⟩ := hlater hes
        rw [if_neg hnone]
        refine ⟨_, _, hjoin.of_apart.append hpassage, ?_, .anew hnone hanew hwrites⟩
        rw [Chunk.edits_append, hedit, hjoin.atoms, ← hes]
        simp [allAtoms]

end Join

end SoftDelete
