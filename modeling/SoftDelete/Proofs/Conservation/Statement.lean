import SoftDelete.Proofs.Conservation.Body
import SoftDelete.Proofs.Policy

namespace SoftDelete

open Piece

structure Reread (column : Text) (l : Lexed) (out : Text) (constrained : List Text)
    (written : List Token) (marks : List Mark) : Prop where
  read : lex out = .ok ⟨written, l.tail⟩
  made : Made column l.tokens written marks
  targets : (targetsOf marks).Perm constrained
  opens : opener written = opener l.tokens

theorem Reread.own {column s : Text} {l : Lexed} (h : lex s = .ok l) :
    Reread column l s [] l.tokens (l.tokens.map .own) where
  read := h
  made := .own l.tokens
  targets := by simp
  opens := rfl

theorem Piece.text_ne_nil {column : Text} (p : Piece column) : p.item.text ≠ [] := by
  obtain ⟨t, ts, hgiven, hgap⟩ := p.exists_given
  obtain ⟨r, hr⟩ := p.stands t (by simp [hgiven])
  have hsource := p.source
  simp only [hgiven, sourceOf_cons, Token.source, Item.source, hgap, List.append_assoc,
    List.append_cancel_left_eq] at hsource
  rw [← hsource]
  simp [hr.lexeme.text_ne_nil]

theorem flows_body (front : List Token) {written dashes : List Token} {gap : Text}
    (h : Readable written (sourceOf dashes ++ gap)) :
    Flows (fun _ r' => ∃ s, r' = sourceOf dashes ++ gap ++ ')' :: s) Apart front written where
  readable := by
    rintro r r' ⟨s, rfl⟩ -
    have hsafe : Safe (sourceOf dashes ++ gap) (sourceOf dashes ++ gap ++ ')' :: s) := by
      simpa using (Safe.of_parenthesis (.inr rfl) [] s).append (sourceOf dashes ++ gap)
    exact (Flows.list written).readable hsafe h
  front _ _ := trivial

theorem exists_subselect {column r : Text} {opening closing : Token} {inner : List Token}
    (nested : Text → Attempt Text) {body : Text}
    (hnested : ∀ {s out l}, (nested s).result = .ok out → lex s = .ok l →
      ∃ written marks, Reread column l out (nested s).notes.constrained written marks)
    (hopening : opening.kind = .lparen) (hclosing : closing.kind = .rparen)
    (hread : Readable (opening :: (inner ++ [closing])) r)
    (hbody : (nested (sourceOf inner ++ closing.gap)).result = .ok body) :
    ∃ p : Piece column,
      p.item = .subselect opening.gap (opening.text ++ (sourceOf inner ++ closing.source)) body ∧
      p.given = opening :: (inner ++ [closing]) ∧
      (targetsOf p.marks).Perm (nested (sourceOf inner ++ closing.gap)).notes.constrained := by
  have hstands : ∀ t ∈ opening :: (inner ++ [closing]), ∃ s, t.StandsBefore s := fun t ht =>
    hread.stands ht
  obtain ⟨hopen, hrest⟩ := hread
  obtain ⟨hinner, hclose, -⟩ := readable_append.1 hrest
  have hopentext : opening.text = ['('] := (hopening ▸ hopen.lexeme).lparen_text
  have hclosetext : closing.text = [')'] := (hclosing ▸ hclose.lexeme).rparen_text
  have hend : sourceOf [closing] ++ r = closing.gap ++ ')' :: r := by
    simp [Token.source, hclosetext]
  rw [hend] at hinner
  obtain ⟨front, dashes, rfl, -, hlex⟩ := lex_inner hinner hclose.gap
  obtain ⟨written, marks, hreread⟩ := hnested hbody hlex
  have hwritten := (readable_of_lex hreread.read).1
  have hsource : sourceOf written ++ (sourceOf dashes ++ closing.gap) = body :=
    source_of_lex hreread.read
  have hdashes : Flows Apart (fun _ r' => ∃ s, r' = sourceOf dashes ++ closing.gap ++ ')' :: s)
      (dashes ++ [closing]) (dashes ++ [closing]) := by
    have hlast := (Flows.list dashes).append (Flows.parenthesis (.inr hclosing))
    exact ⟨hlast.readable, fun {_ r'} _ _ => ⟨r', by simp [Token.source, hclosetext]⟩⟩
  have hflows : Flows Apart Safe (opening :: (front ++ dashes ++ [closing]))
      (opening :: (written ++ (dashes ++ [closing]))) := by
    have hbody := (flows_body front hwritten).append hdashes
    simpa using (Flows.parenthesis (.inl hopening)).append hbody
  have hend := hreread.made.append (.own (dashes ++ [closing]))
  have hmade := Made.append (.own [opening]) hend
  refine ⟨{
    item := .subselect opening.gap (opening.text ++ (sourceOf (front ++ dashes) ++ closing.source))
      body
    given := opening :: (front ++ dashes ++ [closing])
    written := opening :: (written ++ (dashes ++ [closing]))
    marks := [.own opening] ++ (marks ++ (dashes ++ [closing]).map .own)
    made := by simpa using hmade
    source := by simp [Item.source, Item.gap, Item.text, Token.source]
    output := by
      simp [Item.output, Item.gap, Token.source, hopentext, hclosetext, ← hsource]
    front := ⟨rfl, rfl⟩
    opens := ?_
    stands := hstands
    flows := hflows.of_apart
    settled := fun _ => hflows.of_apart
    ofToken := fun t ht => nomatch ht }, rfl, rfl, ?_⟩
  · change opener ([opening] ++ (written ++ (dashes ++ [closing]))) =
      opener ([opening] ++ (front ++ dashes ++ [closing]))
    simp only [opener_append, hreread.opens, Option.or_assoc]
  · simpa using hreread.targets

theorem exists_pieces {column r : Text} {nested : Nat → Text → Attempt Text} {offset : Nat}
    {segs : List Segment} {items : List Item}
    (hnested : ∀ {start s out l}, (nested start s).result = .ok out → lex s = .ok l →
      ∃ written marks, Reread column l out (nested start s).notes.constrained written marks)
    (hsegs : ∀ s ∈ segs, s.Enclosed) (hread : Readable (segs.flatMap Segment.tokens) r)
    (hitems : (itemsOf nested offset segs).result = .ok items) :
    ∃ ps : List (Piece column), items = ps.map item ∧
      givens ps = segs.flatMap Segment.tokens ∧
      (targetsOf (allMarks ps)).Perm (itemsOf nested offset segs).notes.constrained := by
  induction segs generalizing offset items with
  | nil =>
      cases hitems
      exact ⟨[], rfl, rfl, .nil⟩
  | cons s segs ih =>
      rw [List.flatMap_cons, readable_append] at hread
      have hsegs' := fun s hs => hsegs s (List.mem_cons_of_mem _ hs)
      cases s with
      | token t =>
          obtain ⟨later, hrest, rfl, hnotes⟩ := itemsOf_token hitems
          obtain ⟨ps, rfl, hgivens, htargets⟩ := ih hsegs' hread.2 hrest
          refine ⟨.ofOwn t ⟨_, hread.1.1⟩ :: ps, rfl, ?_, ?_⟩
          · simp [givens_cons, hgivens, ofOwn, Segment.tokens]
          · rw [hnotes]
            simpa [allMarks, ofOwn] using htargets
      | subselect opening inner closing =>
          obtain ⟨start, stop, body, later, hbody, hrest, rfl, hnotes⟩ := itemsOf_subselect hitems
          obtain ⟨ps, rfl, hgivens, htargets⟩ := ih hsegs' hread.2 hrest
          obtain ⟨hopening, hclosing⟩ := hsegs _ (by simp : Segment.subselect opening inner closing ∈ _)
          obtain ⟨p, hitem, hgiven, hmarks⟩ :=
            exists_subselect (nested start) hnested hopening hclosing hread.1 hbody
          refine ⟨p :: ps, by simp [hitem], ?_, ?_⟩
          · simp [givens_cons, hgivens, hgiven, Segment.tokens]
          · rw [hnotes, Notes.append_def]
            simpa [allMarks] using hmarks.append htargets

theorem Passage.read {column sql : Text} {l : Lexed} {ps : List (Piece column)} {d : Draft}
    {unclosed : List Token} (h : Passage Safe Safe ps d) (hlex : lex sql = .ok l)
    (htokens : l.tokens = givens ps ++ unclosed) :
    lex (Level.outputWith ⟨ps.map item, sourceOf unclosed ++ l.tail⟩ (Chunk.edits 0 d.chunks)) =
      .ok ⟨d.written ++ unclosed, l.tail⟩ := by
  obtain ⟨hread, htail⟩ := readable_of_lex hlex
  have hsolid : ∀ i ∈ ps.map item, i.text ≠ [] := by
    intro i hi
    obtain ⟨p, -, rfl⟩ := List.mem_map.1 hi
    exact p.text_ne_nil
  rw [Level.outputWith_edits hsolid (by rw [h.atoms, atoms_list]), ← h.output]
  have hflows := h.flows.append (Flows.list unclosed)
  rw [htokens] at hread
  simpa using lex_of_readable (hflows.readable (Safe.refl l.tail) hread) htail

theorem Reread.of_passage {column sql : Text} {l : Lexed} {ps : List (Piece column)} {d : Draft}
    {unclosed : List Token} {constrained : List Text} (hlex : lex sql = .ok l)
    (htokens : l.tokens = givens ps ++ unclosed) (hpassage : Passage Safe Safe ps d)
    (hopens : opener d.written = opener (givens ps))
    (htargets : (targetsOf (allMarks ps)).Perm constrained) :
    Reread column l
      (Level.outputWith ⟨ps.map item, sourceOf unclosed ++ l.tail⟩ (Chunk.edits 0 d.chunks))
      (constrained ++ d.targets) (d.written ++ unclosed) (d.marks ++ unclosed.map .own) where
  read := hpassage.read hlex htokens
  made := by
    rw [htokens]
    exact hpassage.made.append (.own unclosed)
  targets := by
    rw [targetsOf_append, targetsOf_own, List.append_nil]
    exact hpassage.targets.trans (htargets.append_right _)
  opens := by rw [htokens, opener_append, opener_append, hopens]

section Levels

variable {catalog : Catalog} {options : Options} {room depth offset : Nat} {sql out : Text}
  {l : Lexed}

theorem exists_reread_step (hcolumn : IsFlagWord options.column)
    (hnested : ∀ {start s out l},
      (nestedFilter catalog options room depth start s).result = .ok out → lex s = .ok l →
      ∃ written marks, Reread options.column l out
        (nestedFilter catalog options room depth start s).notes.constrained written marks)
    (h : (filterLevel catalog options room depth offset sql).result = .ok out)
    (hlex : lex sql = .ok l) :
    ∃ written marks, Reread options.column l out
      (filterLevel catalog options room depth offset sql).notes.constrained written marks := by
  obtain ⟨l', items, notes, hlex', hitems, hends, hnotes⟩ := filterLevel_cases h
  obtain rfl : l = l' := Except.ok.inj (hlex.symm.trans hlex')
  have hread := (readable_of_lex hlex).1
  have hsplit := segments_append l.tokens
  rw [← hsplit, readable_append] at hread
  obtain ⟨ps, rfl, hgivens, htargets⟩ :=
    exists_pieces hnested (segments_enclosed l.tokens) hread.1 hitems
  rw [← hgivens] at hsplit
  rw [hnotes, Notes.append_def]
  generalize (segments l.tokens).2 = unclosed at hends hsplit
  cases hends with
  | unclosed p =>
      exact ⟨_, _, .of_passage hlex hsplit.symm (.of_own ps) (opener_list ps) htargets⟩
  | untouched hnames =>
      exact ⟨_, _, .of_passage hlex hsplit.symm (.of_own ps) (opener_list ps) htargets⟩
  | @filtered edit hnames hedit =>
      obtain ⟨d, hd⟩ := exists_bodiesPassage [] ps hcolumn rfl hedit
      have hreread := Reread.of_passage hlex hsplit.symm hd.passage hd.opens htargets
      rw [hd.targets, show Chunk.edits 0 d.chunks = edit.edits from hd.edits] at hreread
      exact ⟨_, _, hreread⟩

theorem exists_reread (hcolumn : IsFlagWord options.column)
    (h : (filterLevel catalog options room depth offset sql).result = .ok out)
    (hlex : lex sql = .ok l) :
    ∃ written marks, Reread options.column l out
      (filterLevel catalog options room depth offset sql).notes.constrained written marks := by
  induction room generalizing depth offset sql out l with
  | zero =>
      refine exists_reread_step hcolumn (fun {start s out l} hnested hlex => ?_) h hlex
      cases hnested
      exact ⟨_, _, .own hlex⟩
  | succ room ih => exact exists_reread_step hcolumn ih h hlex

end Levels

def Conserved (column given result : Text) (constrained : List Text) : Prop :=
  ∃ l l' marks, lex given = .ok l ∧ lex result = .ok l' ∧
    l.tokens.map Token.bare = marks.flatMap Mark.given ∧
    l'.tokens.map Token.bare = marks.flatMap (Mark.written column) ∧
    Attached marks ∧ Balanced (marks.flatMap (Mark.added column)) ∧
    (targetsOf marks).Perm constrained

theorem Policy.filterWith_conserved (parse : Text → Except String Unit) (p : Policy) (sql : Text)
    (hcolumn : IsFlagWord p.options.column)
    (h : (p.filterWith parse sql).outcome = .filtered) :
    Conserved p.options.column sql (p.filterWith parse sql).result
      (p.filterWith parse sql).constrained := by
  rcases (p.filterWith_ends parse sql).kept_or_filtered with ⟨hkept, -⟩ | ⟨-, -, hwhole, -, hnotes⟩
  · exact absurd h hkept
  obtain ⟨l, items, notes, hlex, -⟩ := filterLevel_cases hwhole
  obtain ⟨written, marks, hreread⟩ := exists_reread hcolumn hwhole hlex
  rw [hnotes]
  exact ⟨l, ⟨written, l.tail⟩, marks, hlex, hreread.read, hreread.made.givens,
    hreread.made.writtens, hreread.made.attached, hreread.made.balanced hcolumn, hreread.targets⟩

theorem Policy.filterWith_conserved_one :
    let p : Policy := ⟨⟨["hist_a".toList]⟩, ⟨"deleted".toList, 32, 64, false⟩⟩
    let sql := "SELECT * FROM plain p, hist_a a -- all\n WHERE a.x = '--'".toList
    (IsFlagWord p.options.column ∧ (p.filterWith (fun _ => .ok ()) sql).outcome = .filtered) ∧
      Conserved p.options.column sql (p.filterWith (fun _ => .ok ()) sql).result
        (p.filterWith (fun _ => .ok ()) sql).constrained := by
  intro p sql
  have hcolumn : IsFlagWord p.options.column :=
    ⟨⟨[], .word, "deleted".toList⟩, [], by decide +kernel, rfl, closedGap_nil⟩
  have houtcome : (p.filterWith (fun _ => .ok ()) sql).outcome = .filtered := by decide +kernel
  exact ⟨⟨hcolumn, houtcome⟩, p.filterWith_conserved (fun _ => .ok ()) sql hcolumn houtcome⟩

/-- A comment that begins behind the word of the flag column takes in what follows the filter. -/
theorem Policy.filterWith_not_conserved :
    let p : Policy := ⟨⟨["hist_a".toList]⟩, ⟨"deleted#".toList, 32, 64, false⟩⟩
    let sql := "SELECT * FROM hist_a a LIMIT 1".toList
    (∃ w tail, lex p.options.column = .ok ⟨[w], tail⟩ ∧ w.kind = .word) ∧
      (p.filterWith (fun _ => .ok ()) sql).outcome = .filtered ∧
      ¬ Conserved p.options.column sql (p.filterWith (fun _ => .ok ()) sql).result
        (p.filterWith (fun _ => .ok ()) sql).constrained := by
  intro p sql
  refine ⟨⟨⟨[], .word, "deleted".toList⟩, ['#'], by decide +kernel, rfl⟩, by decide +kernel, ?_⟩
  rintro ⟨l, l', marks, hlex, hlex', hgiven, hwritten, hattached, -, -⟩
  have hlimit : Token.word "LIMIT" ∈ tokensOf sql := by decide +kernel
  have hlost : Token.word "LIMIT" ∉ tokensOf (p.filterWith (fun _ => .ok ()) sql).result := by
    decide +kernel
  rw [tokensOf, hlex] at hlimit
  rw [tokensOf, hlex'] at hlost
  dsimp only at hlimit hlost
  rw [hgiven] at hlimit
  rw [hwritten] at hlost
  exact hlost (hattached.mem_written hlimit (by decide) (by decide) _)

end SoftDelete
