import SoftDelete.Proofs.Conservation.Statement
import SoftDelete.Proofs.Join.FilterTree
import SoftDelete.Proofs.Join.Regrouping

namespace SoftDelete

open Piece Reading

def Join.refusal (j : Join) : Option String :=
  match j.clause with
  | some (.on _ _) => none
  | some (.using _) => some (j.kind.keyword ++ " ... USING")
  | none => if j.kind.isNatural then some j.kind.keyword else none

def References.refusal (r : References) (plan : FilterPlan) : Option String :=
  ((r.joins.zip plan.joins).filter fun pair => !pair.2.isEmpty).findSome? fun pair =>
    pair.1.refusal

namespace Join

def Clause.moved (items : ItemRange) : Clause → Clause
  | .on tree _ => .on tree items
  | .using columns => .using columns

structure RebuiltAs (field : Text) (j : Join) (targets : List Text) (k : Join) : Prop where
  name : k.table.name = j.table.name
  aliasName : k.table.aliasName = j.table.aliasName
  kept : targets = [] → k.kind = j.kind ∧ ∃ items, k.clause = j.clause.map (.moved items)
  filtered : targets ≠ [] → k.kind = j.kind.written ∧ ∃ tree items,
    rebuiltTree field targets (Clause.tree? j.clause) = some tree ∧ k.clause = some (.on tree items)

end Join

structure References.RebuiltAs (field : Text) (r : References) (plan : FilterPlan)
    (r' : References) : Prop where
  name : r'.first.name = r.first.name
  aliasName : r'.first.aliasName = r.first.aliasName
  length : r'.joins.length = r.joins.length
  joins : List.Forall₂ (fun pair k => pair.1.RebuiltAs field pair.2 k) (r.joins.zip plan.joins)
    r'.joins

section Refusal

variable (l : Level) (column : Text)

theorem Join.edit_refused (j : Join) (targets : List Text) :
    match j.refusal with
    | some name => j.edit l column targets = .error (.joinWithoutOn name)
    | none => ∃ e, j.edit l column targets = .ok e := by
  unfold refusal edit ownCondition
  cases j.clause with
  | none => by_cases hnatural : j.kind.isNatural = true <;> simp [hnatural, bind, Except.bind]
  | some clause => cases clause <;> simp [bind, Except.bind]

theorem Join.mapM_edit_refused (pairs : List (Join × List Text)) :
    match pairs.findSome? fun pair => pair.1.refusal with
    | some name => pairs.mapM (fun pair => pair.1.edit l column pair.2) =
        .error (.joinWithoutOn name)
    | none => ∃ es, pairs.mapM (fun pair => pair.1.edit l column pair.2) = .ok es := by
  induction pairs with
  | nil => exact ⟨[], rfl⟩
  | cons pair pairs ih =>
      have hfirst := pair.1.edit_refused l column pair.2
      rw [List.findSome?_cons, List.mapM_cons]
      cases hrefusal : pair.1.refusal with
      | some name =>
          simp only [hrefusal] at hfirst
          simp only [hfirst, bind, Except.bind]
      | none =>
          simp only [hrefusal] at hfirst
          obtain ⟨e, he⟩ := hfirst
          cases hlater : pairs.findSome? fun pair => pair.1.refusal with
          | some name =>
              simp only [hlater] at ih
              simp only [he, ih, bind, Except.bind]
          | none =>
              simp only [hlater] at ih
              obtain ⟨es, hes⟩ := ih
              exact ⟨e :: es, by simp only [he, hes, bind, Except.bind, pure, Except.pure]⟩

theorem References.edits_refused (r : References) (plan : FilterPlan) :
    match r.refusal plan with
    | some name => r.edits l column plan = .error (.joinWithoutOn name)
    | none => ∃ es, r.edits l column plan = .ok es :=
  Join.mapM_edit_refused l column _

end Refusal

section Spans

variable {column : Text} {targets : List Text} {w : Token} {tail : Text}

theorem writtens_of_tokens {ps : List (Piece column)} (h : ∀ p ∈ ps, ∃ t, p.item = .token t) :
    (writtens ps).map Item.token = ps.map item := by
  induction ps with
  | nil => rfl
  | cons p ps ih =>
      obtain ⟨t, ht⟩ := h p (by simp)
      obtain ⟨-, hwritten, -⟩ := p.ofToken t ht
      rw [writtens_cons, hwritten, List.map_append, ih fun q hq => h q (by simp [hq])]
      simp [ht]

theorem Join.exists_spans {kind : Join.Kind} {r : Reference} {own : Option Join.Clause} {m n : Nat}
    {keyword table clause : List Item} (hkind : kind.Spans keyword) (htable : r.Spans m table)
    (hown : Join.Clause.Spans n clause own) (start : Nat) :
    ∃ tables owns keywords items : ItemRange, Join.Spans start (keyword ++ table ++ clause)
      ⟨kind, ⟨r.name, r.aliasName, tables⟩, own.map (.moved owns), keywords, items⟩ := by
  obtain ⟨range, hclause⟩ : ∃ range, Join.Clause.Spans (start + (keyword.length + table.length))
      clause (own.map (.moved range)) := by
    cases hown with
    | none => exact ⟨⟨0, 0⟩, .none⟩
    | on hon hcond => exact ⟨_, .on hon hcond⟩
    | «using» husing hopening hnames hclosing =>
        exact ⟨⟨0, 0⟩, .using husing hopening hnames hclosing⟩
  exact ⟨⟨_, _⟩, range, _, _, .intro hkind rfl ⟨rfl, htable.derives⟩ hclause rfl⟩

theorem Join.Spans.moved {j : Join} {start : Nat} {items : List Item} (h : j.Spans start items)
    (field : Text) (start' : Nat) : ∃ k : Join, k.Spans start' items ∧ j.RebuiltAs field [] k := by
  obtain @⟨keyword, table, own, _, hkind, -, htable, hown, -⟩ := h
  obtain ⟨tables, owns, keywords, all, hk⟩ := exists_spans hkind htable hown start'
  exact ⟨_, hk, rfl, rfl, fun _ => ⟨rfl, _, rfl⟩, fun hne => absurd rfl hne⟩

theorem spans_headTokens {kind : Join.Kind} {ks : List (Piece column)}
    (h : kind.Spans (ks.map item)) (htokens : ∀ p ∈ ks, ∃ t, p.item = .token t) (gap : Text) :
    kind.written.Spans ((regap gap (Join.headTokens kind ks)).map Item.token) := by
  have hwritten : kind.written.Spans ((Join.headTokens kind ks).map Item.token) := by
    unfold Join.headTokens
    split
    · rename_i hcomma
      subst hcomma
      exact .inr ⟨by decide, ["INNER", "JOIN"], by decide, rfl, rfl⟩
    · rename_i hcomma
      have hkept : kind.written = kind := by cases kind <;> first | rfl | exact absurd rfl hcomma
      rw [writtens_of_tokens htokens, hkept]
      exact h
  rw [map_regap]
  exact hwritten.regap gap

theorem ClauseTokens.derives {start : Nat} {own : Option Join.Clause} {os : List (Piece column)}
    {written : List Token} (h : ClauseTokens column targets os written)
    (hown : Join.Clause.Spans start (os.map item) own)
    (htokens : ∀ p ∈ os, ∃ t, p.item = .token t) (hlex : lex column = .ok ⟨[w], tail⟩)
    (hw : w.IsFreeName) (hfree : ∀ target ∈ targets, IsFreeTarget target) :
    ∃ tree cond, rebuiltTree w.text targets (Join.Clause.tree? own) = some tree ∧
      written.map Item.token = .token (Token.spaced "ON") :: cond ∧
      Derives (.condition tree) cond := by
  cases h with
  | filters h =>
      obtain ⟨tree, htree, hderives⟩ := h.derives hlex hw hfree
      generalize hos : ([] : List (Piece column)).map item = items at hown
      cases hown with
      | none => exact ⟨tree, _, htree, rfl, hderives⟩
      | on | «using» => cases hos
  | @own o c cs ts h ho =>
      obtain ⟨tree, htree, hderives⟩ := h.derives hlex hw hfree
      generalize hos : (o :: c :: cs).map item = items at hown
      cases hown with
      | none => cases hos
      | «using» husing =>
          obtain ⟨rfl, -⟩ := List.cons.inj hos
          exact absurd ho (by rw [Item.spells_eq husing "ON"]; decide)
      | @on i cond own hon hcond =>
          obtain ⟨rfl, rfl⟩ := List.cons.inj hos
          have hitems := writtens_of_tokens fun p hp => htokens p (List.mem_cons_of_mem o hp)
          have hand : Connective.ofItem? (.token (Token.spaced "AND")) = some .and := rfl
          have hgroup : Derives (.term (.group own)) (.token ⟨[' '], .lparen, ['(']⟩ ::
              (regapItems [] ((c :: cs).map item) ++ [.token Token.closing])) :=
            .group rfl (hcond.regap []) rfl
          rw [List.map_cons, ← List.map_cons, ← hitems, ← map_regap] at hgroup
          exact ⟨_, _, rebuiltTree_some htree own, by simp, hderives.connect hand hgroup⟩

variable (hlex : lex column = .ok ⟨[w], tail⟩) (hw : w.IsFreeName)

include hlex hw

theorem Join.Writes.spans {j : Join} {ps : List (Piece column)} {written : List Token}
    (h : j.Writes targets ps written) (htokens : ∀ p ∈ ps, ∃ t, p.item = .token t)
    (hne : targets ≠ []) (hfree : ∀ target ∈ targets, IsFreeTarget target) (start' : Nat) :
    ∃ k : Join, k.Spans start' (written.map Item.token) ∧ j.RebuiltAs w.text targets k := by
  obtain @⟨start, gap, ks, ts, os, cw, hkind, htable, hown, hclause⟩ := h
  simp only [List.mem_append] at htokens
  obtain ⟨tree, cond, htree, hwritten, hderives⟩ :=
    hclause.derives hown (fun p hp => htokens p (.inr hp)) hlex hw hfree
  have hkeyword := spans_headTokens hkind (fun p hp => htokens p (.inl (.inl hp))) gap
  have hreference := htable.regap [' ']
  have hon : Join.Clause.Spans 0 (.token (Token.spaced "ON") :: cond) _ := .on rfl hderives
  rw [← writtens_of_tokens fun p hp => htokens p (.inl (.inr hp)), ← map_regap] at hreference
  obtain ⟨tables, owns, keywords, all, hspans⟩ := exists_spans hkeyword hreference hon start'
  rw [List.map_append, List.map_append, hwritten, ← List.append_assoc]
  exact ⟨_, hspans, rfl, rfl, fun hnil => absurd hnil hne, fun _ => ⟨rfl, tree, _, htree, rfl⟩⟩

theorem Join.ListWrites.spans {pairs : List (Join × List Text)} {ps : List (Piece column)}
    {written : List Token} (h : ListWrites pairs ps written)
    (htokens : ∀ p ∈ ps, ∃ t, p.item = .token t)
    (hfree : ∀ pair ∈ pairs, ∀ target ∈ pair.2, IsFreeTarget target) (start' : Nat) :
    ∃ ks, Join.ListSpans start' (written.map Item.token) ks ∧
      List.Forall₂ (fun pair k => pair.1.RebuiltAs w.text pair.2 k) pairs ks := by
  -- A join that is kept moves as well, by what is added to the joins in front of it.
  induction h generalizing start' with
  | nil => exact ⟨[], .nil, .nil⟩
  | kept hspans hrest ih =>
      simp only [List.mem_append] at htokens
      obtain ⟨k, hk, hsame⟩ := hspans.moved w.text start'
      rw [← writtens_of_tokens fun p hp => htokens p (.inl hp)] at hk
      obtain ⟨ks, hks, hall⟩ := ih (fun p hp => htokens p (.inr hp))
        (fun pair hpair => hfree pair (List.mem_cons_of_mem _ hpair)) _
      rw [List.map_append]
      exact ⟨k :: ks, .cons hk hks, .cons hsame hall⟩
  | anew hne hfirst hrest ih =>
      simp only [List.mem_append] at htokens
      obtain ⟨k, hk, hsame⟩ := hfirst.spans hlex hw (fun p hp => htokens p (.inl hp)) hne
        (hfree _ List.mem_cons_self) start'
      obtain ⟨ks, hks, hall⟩ := ih (fun p hp => htokens p (.inr hp))
        (fun pair hpair => hfree pair (List.mem_cons_of_mem _ hpair)) _
      rw [List.map_append]
      exact ⟨k :: ks, .cons hk hks, .cons hsame hall⟩

end Spans

section Plan

variable {start : Nat} {items head rest : List Item} {target : Text} {r : References}

theorem FreelyNamed.isFreeTarget {parts : List Text} (h : FreelyNamed parts items)
    (hne : parts ≠ []) (hitems : Tokenised items) : IsFreeTarget (Text.joined "." parts) := by
  obtain ⟨names, rfl, hsub, hfree⟩ := h
  have hread : ∀ t ∈ names, ∃ r, Lexeme t.kind t.text r := fun t ht =>
    hitems.lexeme (hsub.subset (List.mem_map_of_mem ht))
  exact ⟨names, ⟨by simpa using hne, fun t ht => (hfree t ht).canName, hread⟩, hfree, rfl⟩

theorem Reference.Spans.isFreeTarget {table : Reference} (h : table.Spans start items)
    (hitems : Tokenised items) (hname : table.visibleName = some target) : IsFreeTarget target := by
  obtain ⟨front, tail, rfl, htable, htail⟩ := h.derives
  unfold visibleName at hname
  cases hown : table.aliasName with
  | none =>
      have hname : table.name = some target := by simpa [hown] using hname
      obtain ⟨parts, hne, rfl, hfree⟩ := (hname ▸ htable).freely
      exact hfree.isFreeTarget hne hitems.append.1
  | some text =>
      obtain rfl : text = target := by simpa [hown] using hname
      have halias := (hown ▸ htail).freely.isFreeTarget (by simp) hitems.append.2
      simpa [Text.joined] using halias

theorem References.Spans.isFreeTarget (h : r.Spans start head rest)
    (hitems : Tokenised (head ++ rest)) {table : Reference} (htable : table ∈ r.tables)
    (hname : table.visibleName = some target) : IsFreeTarget target := by
  rcases List.mem_cons.1 htable with rfl | htable
  · exact h.first.isFreeTarget hitems.append.1 hname
  · obtain ⟨j, hj, rfl⟩ := List.mem_map.1 htable
    obtain ⟨front, items, back, n, rfl, hspans⟩ := h.joins.exists_table hj
    exact hspans.isFreeTarget hitems.append.2.append.2.append.1 hname

theorem References.Spans.free_of_plan (h : r.Spans start head rest)
    (hitems : Tokenised (head ++ rest))
    (hconstants : ∀ table ∈ r.tables, ∀ name ∈ table.name.toList ++ table.aliasName.toList,
      beginsWithConstant name = false) (catalog : Catalog) :
    ∀ targets ∈ (r.plan catalog).joins, ∀ target ∈ targets,
      IsFreeTarget target ∧ beginsWithConstant target = false := by
  intro targets hmem target htarget
  have hplan : target ∈ (r.plan catalog).constrained :=
    List.mem_append_left _ (List.mem_flatten_of_mem hmem htarget)
  obtain ⟨table, htable, hname⟩ := exists_table_of_plan hplan
  refine ⟨h.isFreeTarget hitems htable hname, hconstants table htable target ?_⟩
  unfold Reference.visibleName at hname
  cases halias : table.aliasName <;> simp_all

end Plan

theorem Join.Clause.Steady.moved {room : Nat} {own : Option Join.Clause}
    (h : Join.Clause.Steady room own) (items : ItemRange) :
    Join.Clause.Steady (room + 1) (own.map (.moved items)) := by
  cases own with
  | none => exact ⟨trivial, rfl⟩
  | some clause =>
      cases clause with
      | «using» columns => exact ⟨trivial, rfl⟩
      | on tree range => exact ⟨⟨h.1.1, Nat.le_succ_of_le h.1.2⟩, h.2⟩

theorem Join.RebuiltAs.steady {room : Nat} {field : Text} {j k : Join} {targets : List Text}
    (h : j.RebuiltAs field targets k) (hown : Join.Clause.Steady room j.clause)
    (htargets : ∀ target ∈ targets, IsFreeTarget target ∧ beginsWithConstant target = false) :
    Join.Clause.Steady (room + 1) k.clause := by
  by_cases hne : targets = []
  · obtain ⟨-, items, hclause⟩ := h.kept hne
    rw [hclause]
    exact hown.moved items
  · obtain ⟨-, tree, items, htree, hclause⟩ := h.filtered hne
    rw [hclause]
    refine steady_conjunctionTree (fun c hc => ?_) htree
    rcases List.mem_append.1 hc with hc | hc
    · obtain ⟨target, htarget, rfl⟩ := List.mem_map.1 hc
      exact steady_filterTree field (htargets target htarget).1 (htargets target htarget).2
    · obtain ⟨own, hmem, rfl⟩ := List.mem_map.1 hc
      obtain ⟨range, hj⟩ := Join.Clause.exists_of_tree? (Option.mem_toList.1 hmem)
      rw [hj] at hown
      exact Condition.Steady.group hown

theorem References.RebuiltAs.steady {room : Nat} {field : Text} {r r' : References}
    {plan : FilterPlan} (h : r.RebuiltAs field plan r')
    (hown : ∀ j ∈ r.joins, Join.Clause.Steady room j.clause)
    (htargets : ∀ targets ∈ plan.joins, ∀ target ∈ targets,
      IsFreeTarget target ∧ beginsWithConstant target = false) :
    ∀ k ∈ r'.joins, Join.Clause.Steady (room + 1) k.clause := by
  intro k hk
  obtain ⟨i, rfl⟩ := List.mem_iff_get.1 hk
  have hi : i < (r.joins.zip plan.joins).length := by
    rw [h.joins.length_eq]
    exact i.2
  obtain ⟨hjoin, hplan⟩ := List.of_mem_zip (List.get_mem (r.joins.zip plan.joins) ⟨i, hi⟩)
  exact (h.joins.get hi i.2).steady (hown _ hjoin) (htargets _ hplan)

theorem References.RebuiltAs.parse_eq {maxJoins : Nat} {field : Text} {r r' : References}
    {plan : FilterPlan} {items head rest : List Item} (h : r.RebuiltAs field plan r')
    (hparse : parse maxNesting maxJoins 0 items none = .ok r) (hitems : Tokenised items)
    (hnests : r.NestsWithin 127)
    (htargets : ∀ targets ∈ plan.joins, ∀ target ∈ targets,
      IsFreeTarget target ∧ beginsWithConstant target = false)
    (hspans : r'.Spans 0 head rest) (hrest : Tokenised rest) :
    parse maxNesting maxJoins 0 (head ++ rest) none = .ok r' := by
  have hroom : 127 ≤ maxNesting := Nat.le_succ 127
  obtain ⟨-, hmost, -⟩ := (parse_cutTo (Nat.le_refl _) (Nat.le_refl _)).1 hparse
  have hown : parse 127 maxJoins 0 items none = .ok r :=
    (parse_cutTo hroom (Nat.le_refl maxJoins)).2 ⟨hparse, hmost, hnests⟩
  have hsteady := h.steady (parse_steady ⟨hitems.shows, rfl⟩ hown) htargets
  have hcertain : Certain none (r'.joins.all (Join.Clause.isClear ·.clause)) rest :=
    ⟨⟨hrest.shows, rfl⟩, List.all_eq_true.2 fun k hk => (hsteady k hk).2⟩
  exact parse_of_clear hspans (h.length ▸ hmost) (fun k hk => (hsteady k hk).1) hcertain

theorem exists_ownPieces (column : Text) {ts : List Token} {r : Text} (h : Readable ts r) :
    ∃ ps : List (Piece column), ps.map item = ts.map Item.token ∧ givens ps = ts := by
  induction ts with
  | nil => exact ⟨[], rfl, rfl⟩
  | cons t ts ih =>
      obtain ⟨ps, hitems, hgivens⟩ := ih h.2
      refine ⟨.ofOwn t ⟨_, h.1⟩ :: ps, ?_, ?_⟩
      · simp [hitems, ofOwn]
      · simp [givens_cons, hgivens, ofOwn]

section Reread

variable {column s : Text} {lexed : Lexed} {r : References} {w : Token} {gap : Text}
  {maxJoins : Nat}

theorem References.Spans.exists_rebuilt {plan : FilterPlan} {hs js : List (Piece column)}
    {edits : List Edit} (h : r.Spans 0 (hs.map item) (js.map item))
    (hread : lex s = .ok lexed) (hgivens : givens (hs ++ js) = lexed.tokens)
    (htokens : ∀ p ∈ hs ++ js, ∃ t, p.item = .token t)
    (hcolumn : lex column = .ok ⟨[w], gap⟩) (hw : w.kind = .word) (hgap : ClosedGap gap)
    (hfree : isReservedWord w.text = false) (hlength : plan.joins.length = r.joins.length)
    (htargets : ∀ targets ∈ plan.joins, ∀ target ∈ targets, IsFreeTarget target)
    (hedits : r.edits ⟨(hs ++ js).map item, lexed.tail⟩ column plan = .ok edits) :
    ∃ written r', lex (Level.outputWith ⟨(hs ++ js).map item, lexed.tail⟩ edits) =
        .ok ⟨writtens hs ++ written, lexed.tail⟩ ∧
      r'.Spans 0 (hs.map item) (written.map Item.token) ∧ r.RebuiltAs w.text plan r' := by
  have hne : hs ≠ [] := by simpa using h.first.settles.ne_nil
  have hnamed : ∀ targets ∈ plan.joins, ∀ target ∈ targets, IsTarget target := by
    intro targets hmem target htarget
    obtain ⟨names, hnames, -, htext⟩ := htargets targets hmem target htarget
    exact ⟨names, hnames, htext⟩
  obtain ⟨chunks, written, hpassage, hchunks, hwrites⟩ :=
    Join.exists_edits hs js [] ⟨w, gap, hcolumn, hw, hgap⟩ hne (by simp)
      (by simpa using h.joins) hlength hnamed hedits
  obtain ⟨ks, hks, hall⟩ := hwrites.spans hcolumn (.inr ⟨hw, hfree⟩)
    (fun p hp => htokens p (List.mem_append_right _ hp))
    (fun pair hpair => htargets pair.2 (List.of_mem_zip hpair).2) (hs.map item).length
  have hwhole := (Passage.of_settles h.first.settles).append hpassage
  have htokens' : lexed.tokens = givens (hs ++ js) ++ [] := by simp [hgivens]
  have hlexed := (hwhole.mono (fun _ _ hr => hr.toCalmer) fun _ _ hr => hr).read hread htokens'
  refine ⟨written, ⟨r.first, ks⟩, ?_, ⟨h.first, by simpa using hks⟩, rfl, rfl, ?_, hall⟩
  · rw [← hchunks]
    simpa [Passage.kept, Chunk.edits, Chunk.atoms] using hlexed
  · rw [← hall.length_eq, List.length_zip, hlength, Nat.min_self]

/-- The edits of the joins fail if one with filters can have no `ON`, for the first such. Otherwise
the text with the edits is read as the same tables, with the filters of the plan in the joins. The
parentheses around a condition of the user take up a level of nesting, and the word of a constant
begins no column name. -/
theorem References.edits_reread (catalog : Catalog) (hlexed : Lexed.ofText s = .ok lexed)
    (hparse : parse maxNesting maxJoins 0 (lexed.tokens.map Item.token) none = .ok r)
    (hnests : r.NestsWithin 127)
    (hconstants : ∀ table ∈ r.tables, ∀ name ∈ table.name.toList ++ table.aliasName.toList,
      beginsWithConstant name = false)
    (hcolumn : lex column = .ok ⟨[w], gap⟩) (hw : w.kind = .word) (hgap : ClosedGap gap)
    (hfree : isReservedWord w.text = false) :
    let l : Level := ⟨lexed.tokens.map Item.token, lexed.tail⟩
    let plan := r.plan catalog
    match r.refusal plan with
    | some name => r.edits l column plan = .error (.joinWithoutOn name)
    | none => ∃ edits lexed' r', r.edits l column plan = .ok edits ∧
        Lexed.ofText (l.outputWith edits) = .ok lexed' ∧
        parse maxNesting maxJoins 0 (lexed'.tokens.map Item.token) none = .ok r' ∧
        r.RebuiltAs w.text plan r' := by
  intro l plan
  have hedits := r.edits_refused l column plan
  cases hrefusal : r.refusal plan with
  | some name => simpa only [hrefusal] using hedits
  | none =>
      simp only [hrefusal] at hedits ⊢
      obtain ⟨edits, hedits⟩ := hedits
      obtain ⟨head, rest, hsplit, hspans⟩ := parse_spans hparse
      have hitems := Tokenised.of_ofText hlexed
      have htargets := hspans.free_of_plan (hsplit ▸ hitems) hconstants catalog
      have hread := lex_of_ofText hlexed
      obtain ⟨ps, hps, hgivens⟩ := exists_ownPieces column (readable_of_lex hread).1
      obtain ⟨hs, js, rfl, rfl, rfl⟩ := List.map_eq_append_iff.1 (hps.trans hsplit)
      have htokens : ∀ p ∈ hs ++ js, ∃ t, p.item = .token t := by
        intro p hp
        obtain ⟨t, -, ht⟩ := List.mem_map.1 (hps ▸ List.mem_map_of_mem hp)
        exact ⟨t, ht.symm⟩
      obtain ⟨written, r', hlex, hnew, hrebuilt⟩ := hspans.exists_rebuilt hread hgivens htokens
        hcolumn hw hgap hfree (plan_joins_length catalog r)
        (fun targets hmem target htarget => (htargets targets hmem target htarget).1)
        (by rw [hps]; exact hedits)
      have hwritten : Tokenised (written.map Item.token) :=
        ⟨written, _, rfl, (readable_append.1 (readable_of_lex hlex).1).2⟩
      have hreread := hrebuilt.parse_eq hparse hitems hnests htargets hnew hwritten
      rw [← writtens_of_tokens fun p hp => htokens p (List.mem_append_left _ hp),
        ← List.map_append] at hreread
      rw [hps] at hlex
      exact ⟨edits, _, r', hedits, ofText_of_lex hlex, hreread, hrebuilt⟩

theorem References.edits_reread_comma :
    let catalog : Catalog := ⟨["a".toList, "c".toList]⟩
    let s := ("a /* first */, `b`.x AS q LEFT JOIN c ON a.k = c.k OR NOT q.n IN (1, 2)" ++
      " RIGHT JOIN d USING (k) -- last").toList
    let lexed := (Lexed.ofText s).toOption.getD ⟨[], []⟩
    let w : Token := ⟨[], .word, "deleted".toList⟩
    let l : Level := ⟨lexed.tokens.map Item.token, lexed.tail⟩
    ∃ r, (Lexed.ofText s = .ok lexed ∧
      parse maxNesting 64 0 (lexed.tokens.map Item.token) none = .ok r ∧ r.NestsWithin 127 ∧
      (∀ table ∈ r.tables, ∀ name ∈ table.name.toList ++ table.aliasName.toList,
        beginsWithConstant name = false) ∧
      lex "deleted".toList = .ok ⟨[w], []⟩ ∧ w.kind = .word ∧ ClosedGap [] ∧
      isReservedWord w.text = false) ∧ r.refusal (r.plan catalog) = none ∧
      ∃ edits lexed' r', r.edits l "deleted".toList (r.plan catalog) = .ok edits ∧
        Lexed.ofText (l.outputWith edits) = .ok lexed' ∧
        parse maxNesting 64 0 (lexed'.tokens.map Item.token) none = .ok r' ∧
        r.RebuiltAs w.text (r.plan catalog) r' := by
  intro catalog s lexed w l
  have hlexed : Lexed.ofText s = .ok lexed := by decide +kernel
  have hcolumn : lex "deleted".toList = .ok ⟨[w], []⟩ := by decide +kernel
  have hfree : isReservedWord w.text = false := by decide
  obtain ⟨r, hread, hrefusal, hconstants⟩ : ∃ r,
      parse 127 64 0 (lexed.tokens.map Item.token) none = .ok r ∧
        (r.refusal (r.plan catalog) = none ∧
          ∀ table ∈ r.tables, ∀ name ∈ table.name.toList ++ table.aliasName.toList,
            beginsWithConstant name = false) :=
    exists_ok_of_any (by decide +kernel)
  obtain ⟨hparse, -, hnests⟩ := (parse_cutTo (Nat.le_succ 127) (Nat.le_refl 64)).1 hread
  have hreread := edits_reread catalog hlexed hparse hnests hconstants hcolumn rfl closedGap_nil hfree
  simp only [hrefusal] at hreread
  exact ⟨r, ⟨hlexed, hparse, hnests, hconstants, hcolumn, rfl, closedGap_nil, hfree⟩, hrefusal,
    hreread⟩

end Reread

end SoftDelete
