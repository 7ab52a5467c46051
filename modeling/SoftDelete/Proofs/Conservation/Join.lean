import SoftDelete.Proofs.Conservation.Passage

namespace SoftDelete

theorem intercalate_snoc {s y : Text} {xs : List Text} (h : xs ≠ []) :
    s.intercalate (xs ++ [y]) = s.intercalate xs ++ (s ++ y) := by
  induction xs with
  | nil => exact absurd rfl h
  | cons x xs ih =>
      cases xs with
      | nil => simp [List.intercalate_cons_cons]
      | cons x' xs =>
          have hrest := ih (by simp)
          simp only [List.cons_append, List.intercalate_cons_cons] at hrest ⊢
          simp [hrest]

section Conjunction

variable {column : Text}

theorem lexeme_and : Lexeme .word "AND".toList [] := .intro (by decide) (by decide)

theorem lexeme_on : Lexeme .word "ON".toList [] := .intro (by decide) (by decide)

inductive Conjoins (column : Text) : List Text → List Token → Prop where
  | one {target : Text} {ts : List Token} (h : IsFilter column target ts) :
      Conjoins column [target] ts
  | more {target : Text} {targets : List Text} {ts us : List Token}
      (h : IsFilter column target ts) (hmore : Conjoins column targets us) :
      Conjoins column (target :: targets) (ts ++ Token.spaced "AND" :: us)

namespace Conjoins

variable {targets : List Text} {ts : List Token}

theorem exists_of (hcolumn : IsFlagWord column)
    (htargets : ∀ target ∈ targets, IsTarget target) (hne : targets ≠ []) :
    ∃ ts, Conjoins column targets ts := by
  fun_induction conjunction targets with
  | case1 => exact absurd rfl hne
  | case2 target =>
      obtain ⟨ts, hts⟩ := IsFilter.exists_of hcolumn (htargets target (by simp))
      exact ⟨ts, .one hts⟩
  | case3 target targets hmore ih =>
      obtain ⟨ts, hts⟩ := IsFilter.exists_of hcolumn (htargets target (by simp))
      obtain ⟨us, hus⟩ := ih (fun u hu => htargets u (by simp [hu])) fun hnil => hmore hnil
      exact ⟨_, .more hts hus⟩

theorem ne_nil (h : Conjoins column targets ts) : targets ≠ [] := by
  cases h <;> simp

theorem spaced (h : Conjoins column targets ts) : Spaced ts := by
  induction h with
  | one h => exact h.spaced
  | more h _ ih => exact h.spaced.append (spaced_word lexeme_and ih)

theorem source (h : Conjoins column targets ts) :
    sourceOf ts = ' ' :: Text.joined " AND " (targets.map (filterCondition column)) := by
  induction h with
  | one h => simp [h.source, Text.joined]
  | @more target targets ts us h hmore ih =>
      have hmap : targets.map (filterCondition column) ≠ [] := by simpa using hmore.ne_nil
      simp only [sourceOf_append, sourceOf_cons, h.source, ih, Text.joined, List.map_cons,
        List.intercalate_cons_of_ne_nil hmap]
      simp [Token.source, Token.spaced]

theorem bare (h : Conjoins column targets ts) :
    ts.map Token.bare = (conjunction targets).flatMap (Mark.written column) := by
  induction h with
  | one h => simp [conjunction, h.bare, Mark.written, Mark.added]
  | @more target targets ts us h hmore ih =>
      rw [conjunction.eq_3 target targets hmore.ne_nil]
      simp [h.bare, ih, Mark.written, Mark.added, Token.bare, Token.spaced, Token.word]

end Conjoins

end Conjunction

namespace Flows

variable {P Q : Text → Text → Prop} {given written : List Token}

theorem regapped {g : Text} (h : Flows P Q given written) (hg : ClosedGap g) :
    Flows P Apart given (regap g written) where
  readable hr hread := readable_regap hg (h.readable hr hread)
  front _ _ := trivial

theorem led {gap lead : Text} (h : Flows P Q given written)
    (hgiven : given.head?.map Token.gap = some gap) (hne : written ≠ [])
    (hlead : lead = [' '] ∨ (lead = [] ∧ gap ≠ [])) :
    Flows P Calmer given (regap (gap ++ lead) written) := by
  cases given with
  | nil => cases hgiven
  | cons t ts =>
      obtain rfl : t.gap = gap := by simpa using hgiven
      have hspace : ClosedGap lead := by
        rcases hlead with rfl | ⟨rfl, -⟩
        · exact closedGap_blank (by decide)
        · exact closedGap_nil
      constructor
      · intro r r' hr hread
        exact readable_regap (hread.1.gap.append hspace) (h.readable hr hread)
      · intro r r' _ hread
        obtain ⟨u, us, rfl⟩ := List.exists_cons_of_ne_nil hne
        rw [sourceOf_regap, sourceOf_cons, Token.source]
        simp only [List.append_assoc]
        by_cases hgap : t.gap = []
        · rcases hlead with rfl | ⟨-, hgap'⟩
          · rw [hgap]
            exact .of_neutral rfl (by decide) _ _
          · exact absurd hgap hgap'
        · exact (Safe.of_gap hread.1.gap hgap _ _).toCalmer

end Flows

theorem settles_of_forall {items : List Item} (hne : items ≠ [])
    (h : ∀ i ∈ items, i.kind? ≠ some .operator) : Settles items :=
  ⟨items.dropLast, items.getLast hne, (List.dropLast_append_getLast hne).symm,
    h _ (List.getLast_mem hne)⟩

section Parts

open Piece

variable {column lead : Text}

theorem marks_of_tokens {ps : List (Piece column)} (h : ∀ p ∈ ps, ∃ t, p.item = .token t) :
    allMarks ps = (givens ps).map .own := by
  induction ps with
  | nil => rfl
  | cons p ps ih =>
      obtain ⟨t, ht⟩ := h p (by simp)
      obtain ⟨hgiven, -, hmarks⟩ := p.ofToken t ht
      have hrest := ih fun q hq => h q (by simp [hq])
      simp only [allMarks, givens, List.flatMap_cons, hgiven, hmarks] at hrest ⊢
      rw [hrest, List.map_append]
      rfl

def headMarks (kind : Join.Kind) (ks : List (Piece column)) : List Mark :=
  if kind = .comma then [.comma] else allMarks ks

def clauseMarks (targets : List Text) : List (Piece column) → List Mark
  | [] => .keyword "ON" :: conjunction targets
  | o :: cs => o.given.map .on ++ (conjunction targets ++
      (.keyword "AND" :: .opening :: (allMarks cs ++ [.closing])))

structure HeadOf (lead text : Text) (k : Piece column) (ks : List (Piece column))
    (written : List Token) (marks : List Mark) : Prop where
  source : sourceOf written = k.item.gap ++ (lead ++ text)
  flows : Flows Parted Calmer (givens (k :: ks)) written
  givens : (givens (k :: ks)).map Token.bare = marks.flatMap Mark.given
  writtens : written.map Token.bare = marks.flatMap (Mark.written column)
  head : IsHead marks
  targets : targetsOf (allMarks (k :: ks)) = []

theorem headOf_comma {k : Piece column} {t : Token} (hitem : k.item = .token t)
    (ht : t.kind = .comma) (hlead : lead = [' '] ∨ (lead = [] ∧ k.item.gap ≠ [])) :
    HeadOf lead "INNER JOIN".toList k []
      (regap (k.item.gap ++ lead) [Token.word "INNER", Token.spaced "JOIN"]) [.comma] := by
  obtain ⟨hgiven, hwritten, hmarks⟩ := k.ofToken t hitem
  have hgivens : Piece.givens [k] = [t] := by simp [Piece.givens, hgiven]
  have hcomma : t.bare = Token.comma := by
    obtain ⟨r, hr⟩ := k.stands t (by simp [hgiven])
    have htext := Lexeme.comma_text (ht ▸ hr.lexeme)
    simp [Token.bare, Token.comma, ht, htext]
  have hinner : Lexeme .word "INNER".toList [] := .intro (by decide) (by decide)
  have hjoin : Lexeme .word "JOIN".toList [] := .intro (by decide) (by decide)
  have hbase : Flows Parted Apart (Piece.givens [k]) [Token.word "INNER", Token.spaced "JOIN"] := by
    refine ⟨fun {r r'} hr _ => ?_, fun _ _ => trivial⟩
    obtain ⟨s, rfl⟩ := hr
    exact ⟨⟨closedGap_nil, hinner.before_neutral rfl (by decide) _⟩,
      ⟨closedGap_blank (by decide), hjoin.before_neutral rfl (by decide) _⟩, trivial⟩
  constructor
  · simp [sourceOf_regap, Token.word, Token.spaced, Token.source]
  · exact hbase.led (givens_head k []) (by simp) hlead
  · simp [hgivens, hcomma, Mark.given]
  · simp [map_bare_regap, Mark.written, Token.word, Token.spaced, Token.bare]
  · exact .inl rfl
  · simp [allMarks, hmarks]

theorem headOf_words {k : Piece column} {ks : List (Piece column)}
    (hwords : ∀ p ∈ k :: ks, ∃ t, p.item = .token t ∧ t.kind = .word)
    (hlead : lead = [' '] ∨ (lead = [] ∧ k.item.gap ≠ [])) :
    HeadOf lead (outputOf ((k :: ks).map item)) k ks
      (regap (k.item.gap ++ lead) (Piece.writtens (k :: ks))) (allMarks (k :: ks)) := by
  have hsettles : Settles ((k :: ks).map item) := by
    refine settles_of_forall (by simp) fun i hi => ?_
    obtain ⟨p, hp, rfl⟩ := List.mem_map.1 hi
    obtain ⟨t, hitem, ht⟩ := hwords p hp
    simp [hitem, Item.kind?, ht]
  have hmarks := marks_of_tokens fun p hp => (hwords p hp).imp fun t ht => ht.1
  have hmade := made_list (k :: ks)
  have hflows : Flows Parted Safe (Piece.givens (k :: ks)) (Piece.writtens (k :: ks)) :=
    (flows_settles hsettles).mono (fun _ _ hr => hr.calmer) fun _ _ hr => hr
  constructor
  · rw [Piece.sourceOf_regap, output_core, List.append_assoc]
  · exact hflows.led (givens_head k ks) (writtens_ne_nil (by simp)) hlead
  · exact hmade.givens
  · rw [map_bare_regap, hmade.writtens]
  · exact .inr ⟨_, hmarks⟩
  · rw [hmarks]
    exact IsHead.targets (.inr ⟨_, rfl⟩)

structure ClauseOf (text : Text) (targets : List Text) (os : List (Piece column))
    (written : List Token) (marks : List Mark) : Prop where
  source : sourceOf written = " ON ".toList ++ text
  flows : Flows Apart Parted (givens os) written
  givens : (givens os).map Token.bare = marks.flatMap Mark.given
  writtens : written.map Token.bare = marks.flatMap (Mark.written column)
  attached : ∀ {head table}, IsHead head → Attached table → Attached (head ++ (table ++ marks))
  targets : (targetsOf marks).Perm (targetsOf (allMarks os) ++ targets)

section Clause

variable {targets : List Text}

inductive ClauseTokens (column : Text) (targets : List Text) :
    List (Piece column) → List Token → Prop where
  | filters {ts : List Token} (h : Conjoins column targets ts) :
      ClauseTokens column targets [] (Token.spaced "ON" :: ts)
  | own {o c : Piece column} {cs : List (Piece column)} {ts : List Token}
      (h : Conjoins column targets ts) (ho : o.item.spells "ON" = true) :
      ClauseTokens column targets (o :: c :: cs)
        ((Token.spaced "ON" :: (ts ++ [Token.spaced "AND", ⟨[' '], .lparen, ['(']⟩])) ++
          (regap [] (Piece.writtens (c :: cs)) ++ [Token.closing]))

theorem clauseOf_filters {ts : List Token} (h : Conjoins column targets ts) :
    ClauseOf (Text.joined " AND " (targets.map (filterCondition column))) targets
      ([] : List (Piece column)) (Token.spaced "ON" :: ts)
      (clauseMarks targets ([] : List (Piece column))) := by
  rw [clauseMarks]
  constructor
  · simp [h.source, Token.source, Token.spaced]
  · exact (spaced_word lexeme_on h.spaced).flows []
  · simp [Piece.givens, Mark.given, given_conjunction]
  · simp [h.bare, Mark.written, Mark.added, Token.bare, Token.spaced, Token.word]
  · intro head table hhead htable
    exact .join hhead htable h.ne_nil
  · simp [allMarks]

theorem clauseOf_own {o c : Piece column} {cs : List (Piece column)} {ts : List Token}
    (h : Conjoins column targets ts) (ho : o.item.spells "ON" = true) :
    ClauseOf (Text.joined " AND " (targets.map (filterCondition column) ++
        ['(' :: (outputOf ((c :: cs).map item) ++ [')'])])) targets (o :: c :: cs)
      ((Token.spaced "ON" :: (ts ++ [Token.spaced "AND", ⟨[' '], .lparen, ['(']⟩])) ++
        (regap [] (Piece.writtens (c :: cs)) ++ [Token.closing]))
      (clauseMarks targets (o :: c :: cs)) := by
  obtain ⟨t, ht, hitem, hgiven, -, hmarks, -⟩ := Passage.exists_keyword ho
  have hopening : Spaced [(⟨[' '], .lparen, ['(']⟩ : Token)] :=
    ⟨fun r => ⟨⟨closedGap_blank (by decide), .lparen _⟩, trivial⟩, ⟨['('], rfl⟩⟩
  have hledby : Spaced (Token.spaced "ON" :: (ts ++ [Token.spaced "AND", ⟨[' '], .lparen, ['(']⟩])) :=
    spaced_word lexeme_on (h.spaced.append (spaced_word lexeme_and hopening))
  have hmade := made_list (c :: cs)
  have hclosing : Flows Apart Safe [] [Token.closing] := .closed fun _ => trivial
  have hcond := ((flows_list (c :: cs)).append hclosing).regapped closedGap_nil
  rw [List.append_nil, regap_append (writtens_ne_nil (by simp))] at hcond
  have hgivens : Piece.givens (o :: c :: cs) = [t] ++ Piece.givens (c :: cs) := by
    simp [Piece.givens, hgiven]
  have hall : allMarks (o :: c :: cs) = .own t :: allMarks (c :: cs) := by simp [allMarks, hmarks]
  rw [clauseMarks, hgiven, List.map_singleton, List.singleton_append]
  constructor
  · have hmap : targets.map (filterCondition column) ≠ [] := by simpa using h.ne_nil
    rw [Text.joined, intercalate_snoc hmap, sourceOf_append, sourceOf_append,
      Piece.sourceOf_regap, output_core]
    simp [h.source, Token.source, Token.spaced, Token.closing, Text.joined]
  · rw [hgivens]
    exact (hledby.flows [t]).append hcond
  · simp [hgivens, hmade.givens, Mark.given, given_conjunction]
  · simp [h.bare, hmade.writtens, map_bare_regap, Mark.written, Mark.added, Token.bare, Token.spaced,
      Token.word, Token.opening, Token.closing]
  · intro head table hhead htable
    exact .joinOn hhead htable h.ne_nil ht hmade.attached
  · simpa [hall] using List.perm_append_comm

end Clause

theorem joinPassage {text own : Text} {targets : List Text} {k : Piece column}
    {ks ts os : List (Piece column)} {hw cw : List Token} {hm cm : List Mark}
    (hhead : HeadOf lead text k ks hw hm) (htable : Settles (ts.map item))
    (hclause : ClauseOf own targets os cw cm) (hne : targets ≠ [])
    (htargets : ∀ target ∈ targets, IsTarget target) :
    Passage Apart Calmer (k :: ks ++ (ts ++ os))
      ⟨[.kept [.plain k.item.gap], .put (k.item.core :: allAtoms (ks ++ (ts ++ os)))
        (lead ++ (text ++ ' ' :: (outputOf (ts.map item) ++ (" ON ".toList ++ own))))],
        hw ++ (regap [' '] (Piece.writtens ts) ++ cw), hm ++ (allMarks ts ++ cm), targets⟩ := by
  cases ts with
  | nil =>
      exact absurd rfl htable.ne_nil
  | cons u us =>
      have hmade := made_list (u :: us)
      have hheads := hhead.head.targets
      have htables := (flows_settles htable).spaced (writtens_ne_nil (by simp))
      have hgivens : Piece.givens (k :: ks ++ (u :: us ++ os)) =
          Piece.givens (k :: ks) ++ (Piece.givens (u :: us) ++ Piece.givens os) := by
        simp [Piece.givens]
      have hmarks : allMarks (k :: ks ++ (u :: us ++ os)) =
          allMarks (k :: ks) ++ (allMarks (u :: us) ++ allMarks os) := by
        simp [allMarks]
      constructor
      · simp [Chunk.atoms, allAtoms, Item.atoms_eq]
      · rw [sourceOf_append, sourceOf_append, hhead.source, Piece.sourceOf_regap, output_core,
          hclause.source]
        simp [Chunk.output, Atom.output]
      · rw [hgivens]
        have hrest := (htables.mono (fun _ _ hr => hr.calmer) fun _ _ hr => hr).append hclause.flows
        exact hhead.flows.append hrest
      · constructor
        · rw [hgivens]
          simp only [List.map_append, List.flatMap_append, hhead.givens, hmade.givens,
            hclause.givens]
        · simp [hhead.writtens, hmade.writtens, map_bare_regap, hclause.writtens]
        · exact hclause.attached hhead.head hmade.attached
        · intro target htarget
          simp only [targetsOf_append, hheads, List.nil_append, List.mem_append] at htarget
          rcases htarget with htarget | htarget
          · exact hmade.named target htarget
          · rcases List.mem_append.1 (hclause.targets.mem_iff.1 htarget) with htarget | htarget
            · exact (made_list os).named target htarget
            · exact htargets target htarget
        · intro hnone
          have hperm := hclause.targets
          rw [targetsOf_append, targetsOf_append, List.append_eq_nil_iff,
            List.append_eq_nil_iff] at hnone
          rw [hnone.2.2] at hperm
          exact absurd (List.append_eq_nil_iff.1 hperm.nil_eq.symm).2 hne
      · rw [hmarks]
        simp only [targetsOf_append, hheads, hhead.targets, List.nil_append, List.append_assoc]
        exact hclause.targets.append_left _

end Parts

end SoftDelete
