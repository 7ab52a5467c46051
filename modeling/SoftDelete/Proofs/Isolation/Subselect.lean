import SoftDelete.Proofs.Select.Nesting
import SoftDelete.Proofs.Sql.Parentheses
import SoftDelete.Proofs.Sql.Readable

namespace SoftDelete

def enclose (front inner back : Text) : Text :=
  front ++ '(' :: (inner ++ ')' :: back)

def partsFrom (front : Text) : List Segment → List (Text × Text)
  | [] => []
  | .token t :: later => partsFrom (front ++ t.source) later
  | .subselect opening inner closing :: later =>
      (front ++ opening.gap, sourceOf inner ++ closing.gap) ::
        partsFrom (front ++ (Segment.subselect opening inner closing).source) later

def isolated (sql : Text) : List (Text × Text) :=
  match lex sql with
  | .ok l => partsFrom [] (segments l.tokens).1
  | .error _ => []

theorem mem_partsFrom {front text inner : Text} {segs : List Segment}
    (h : (text, inner) ∈ partsFrom front segs) :
    ∃ before opening ts closing after, segs = before ++ .subselect opening ts closing :: after ∧
      text = front ++ (before.flatMap Segment.source ++ opening.gap) ∧
      inner = sourceOf ts ++ closing.gap := by
  induction segs generalizing front with
  | nil => cases h
  | cons s segs ih =>
      have hlater : (text, inner) ∈ partsFrom (front ++ s.source) segs → ∃ before opening ts closing
          after, s :: segs = before ++ .subselect opening ts closing :: after ∧
            text = front ++ (before.flatMap Segment.source ++ opening.gap) ∧
            inner = sourceOf ts ++ closing.gap := by
        intro h
        obtain ⟨before, opening, ts, closing, after, rfl, rfl, rfl⟩ := ih h
        exact ⟨s :: before, opening, ts, closing, after, rfl, by simp, rfl⟩
      cases s with
      | token t =>
          refine hlater ?_
          simpa [partsFrom, Segment.source, Segment.tokens] using h
      | subselect opening ts closing =>
          rcases List.mem_cons.1 h with heq | h
          · cases heq
            exact ⟨[], opening, ts, closing, segs, rfl, by simp, rfl⟩
          · exact hlater h

section Segments

variable {opening closing : Token} {inner : List Token} {before after : List Segment}

theorem segments_singleton (t : Token) : segments [t] = ([.token t], []) := by
  simp [segments, opensSubselect]

theorem opensSubselect_append (t : Token) (opening : Token) (more more' : List Token) :
    opensSubselect t (before.flatMap Segment.tokens ++ opening :: more) =
      opensSubselect t (before.flatMap Segment.tokens ++ opening :: more') := by
  cases before with
  | nil => rfl
  | cons s before => cases s <;> rfl

theorem segments_around {ts unclosed : List Token}
    (h : segments ts = (before ++ .subselect opening inner closing :: after, unclosed)) :
    segments (before.flatMap Segment.tokens ++ [opening]) = (before ++ [.token opening], []) ∧
      segments (after.flatMap Segment.tokens ++ unclosed) = (after, unclosed) := by
  fun_induction segments ts generalizing before with
  | case1 => simp at h
  | case2 => simp at h
  | case3 t ts hopens ts' last rest hclosed later unclosed' hs ih =>
      obtain ⟨hsegs, rfl⟩ := Prod.mk.inj h
      cases before with
      | nil =>
          obtain ⟨hhead, rfl⟩ := List.cons.inj hsegs
          cases hhead
          have hrest := segments_append rest
          rw [hs] at hrest
          exact ⟨segments_singleton _, by rw [hrest, hs]⟩
      | cons s before =>
          obtain ⟨rfl, rfl⟩ := List.cons.inj hsegs
          obtain ⟨hfront, hback⟩ := ih hs
          refine ⟨?_, hback⟩
          have hopens' : opensSubselect t (ts' ++ last ::
              (before.flatMap Segment.tokens ++ [opening])) = true := by
            rw [append_of_enclosed? hclosed] at hopens
            cases ts' <;> exact hopens
          have hclosed' := enclosed?_of_append hclosed
            (before.flatMap Segment.tokens ++ [opening])
          have hsplit : (Segment.subselect t ts' last :: before).flatMap Segment.tokens ++ [opening] =
              t :: (ts' ++ last :: (before.flatMap Segment.tokens ++ [opening])) := by
            simp [Segment.tokens]
          rw [hsplit, segments, if_pos hopens']
          split
          · rename_i hnone
            rw [hclosed'] at hnone
            cases hnone
          · rename_i hsome
            rw [hclosed'] at hsome
            cases hsome
            simp [hfront]
  | case4 t ts hopens later unclosed' hs ih =>
      obtain ⟨hsegs, rfl⟩ := Prod.mk.inj h
      cases before with
      | nil => cases (List.cons.inj hsegs).1
      | cons s before =>
          obtain ⟨rfl, rfl⟩ := List.cons.inj hsegs
          obtain ⟨hfront, hback⟩ := ih hs
          refine ⟨?_, hback⟩
          have hts := segments_append ts
          rw [hs] at hts
          have hopens' : ¬ opensSubselect t (before.flatMap Segment.tokens ++ [opening]) = true := by
            rw [← opensSubselect_append t opening (inner ++ [closing] ++
              (after.flatMap Segment.tokens ++ unclosed')) []]
            rw [← hts] at hopens
            simpa [Segment.tokens] using hopens
          have hsplit : (Segment.token t :: before).flatMap Segment.tokens ++ [opening] =
              t :: (before.flatMap Segment.tokens ++ [opening]) := by
            simp [Segment.tokens]
          rw [hsplit, segments, if_neg hopens']
          simp [hfront]

end Segments

theorem sourceOf_segments (segs : List Segment) :
    sourceOf (segs.flatMap Segment.tokens) = segs.flatMap Segment.source := by
  simp only [sourceOf, List.flatMap_assoc]
  rfl

structure CutInto (sql : Text) (segs : List Segment) (unclosed : List Token) (tail : Text) :
    Prop where
  lexed : ∃ tokens, lex sql = .ok ⟨tokens, tail⟩ ∧ segments tokens = (segs, unclosed)

namespace CutInto

variable {sql tail : Text} {segs : List Segment} {unclosed : List Token}

theorem of_lex {l : Lexed} (h : lex sql = .ok l) :
    CutInto sql (segments l.tokens).1 (segments l.tokens).2 l.tail :=
  ⟨l.tokens, h, rfl⟩

theorem readable (h : CutInto sql segs unclosed tail) :
    Readable (segs.flatMap Segment.tokens ++ unclosed) tail := by
  obtain ⟨tokens, hlex, hsegs⟩ := h.lexed
  have htokens := segments_append tokens
  rw [hsegs] at htokens
  rw [htokens]
  exact (readable_of_lex hlex).1

theorem ends (h : CutInto sql segs unclosed tail) : gapLength .between tail = tail.length := by
  obtain ⟨tokens, hlex, -⟩ := h.lexed
  exact (readable_of_lex hlex).2

theorem source_eq (h : CutInto sql segs unclosed tail) :
    sql = sourceOf (segs.flatMap Segment.tokens ++ unclosed) ++ tail := by
  obtain ⟨tokens, hlex, hsegs⟩ := h.lexed
  have htokens := segments_append tokens
  rw [hsegs] at htokens
  rw [htokens]
  exact (source_of_lex hlex).symm

theorem stands (h : CutInto sql segs unclosed tail) {t : Token}
    (ht : t ∈ segs.flatMap Segment.tokens) : ∃ r, t.StandsBefore r :=
  h.readable.stands (List.mem_append_left unclosed ht)

theorem parentheses {before after : List Segment} {opening closing : Token} {ts : List Token}
    (h : CutInto sql (before ++ .subselect opening ts closing :: after) unclosed tail) :
    opening.kind = .lparen ∧ opening.text = ['('] ∧ closing.text = [')'] := by
  obtain ⟨tokens, -, hsegs⟩ := h.lexed
  have henclosed : (Segment.subselect opening ts closing).Enclosed :=
    segments_enclosed tokens _ (by simp [hsegs])
  obtain ⟨_, hopening⟩ := h.stands (t := opening) (by simp [Segment.tokens])
  obtain ⟨_, hclosing⟩ := h.stands (t := closing) (by simp [Segment.tokens])
  exact ⟨henclosed.1, (henclosed.1 ▸ hopening.lexeme).lparen_text,
    (henclosed.2 ▸ hclosing.lexeme).rparen_text⟩

theorem lex_body {opening closing : Token} {inner : List Token}
    (h : CutInto sql segs unclosed tail) (hmem : .subselect opening inner closing ∈ segs) :
    ∃ front dashes, inner = front ++ dashes ∧ (∀ t ∈ dashes, t.text = ['-']) ∧
      lex (sourceOf inner ++ closing.gap) = .ok ⟨front, sourceOf dashes ++ closing.gap⟩ := by
  obtain ⟨before, after, rfl⟩ := List.append_of_mem hmem
  obtain ⟨-, -, hclosing⟩ := h.parentheses
  have hread := h.readable
  simp only [List.flatMap_append, List.flatMap_cons, Segment.tokens, List.append_assoc,
    readable_append, List.cons_append, List.nil_append, Readable] at hread
  obtain ⟨-, -, hinner, hclose, -⟩ := hread
  have hend : ∀ rest, sourceOf (closing :: rest) ++ tail =
      closing.gap ++ ')' :: (sourceOf rest ++ tail) := by
    simp [Token.source, hclosing]
  rw [hend] at hinner
  exact lex_inner hinner hclose.gap

end CutInto

structure Cut (front inner back : Text) (before : List Segment) (opening : Token) (ts : List Token)
    (closing : Token) (after : List Segment) (unclosed : List Token) (tail : Text) : Prop where
  into : CutInto (enclose front inner back) (before ++ .subselect opening ts closing :: after)
    unclosed tail
  front_eq : front = before.flatMap Segment.source ++ opening.gap
  inner_eq : inner = sourceOf ts ++ closing.gap
  opening_kind : opening.kind = .lparen
  opening_text : opening.text = ['(']
  closing_text : closing.text = [')']

theorem exists_cut {front inner back : Text} (h : (front, inner) ∈ isolated (enclose front inner back)) :
    ∃ before opening ts closing after unclosed tail,
      Cut front inner back before opening ts closing after unclosed tail := by
  unfold isolated at h
  split at h
  · rename_i l hlex
    obtain ⟨before, opening, ts, closing, after, hsegs, hfront, hinner⟩ := mem_partsFrom h
    have hinto := CutInto.of_lex hlex
    rw [hsegs] at hinto
    obtain ⟨hkind, hopening, hclosing⟩ := hinto.parentheses
    exact ⟨before, opening, ts, closing, after, (segments l.tokens).2, l.tail, hinto,
      by simpa using hfront, hinner, hkind, hopening, hclosing⟩
  · cases h

namespace Cut

variable {front inner back : Text} {before : List Segment} {opening : Token} {ts : List Token}
  {closing : Token} {after : List Segment} {unclosed : List Token} {tail : Text}

theorem readable (h : Cut front inner back before opening ts closing after unclosed tail) :
    Readable (before.flatMap Segment.tokens ++ (opening :: (ts ++ closing ::
      (after.flatMap Segment.tokens ++ unclosed)))) tail := by
  simpa [Segment.tokens] using h.into.readable

theorem lex_front (h : Cut front inner back before opening ts closing after unclosed tail) :
    lex (front ++ ['(']) = .ok ⟨before.flatMap Segment.tokens ++ [opening], []⟩ := by
  have hsource : front ++ ['('] = sourceOf (before.flatMap Segment.tokens ++ [opening]) ++ [] := by
    rw [h.front_eq]
    simp [Token.source, h.opening_text, sourceOf_segments]
  rw [hsource]
  apply lex_of_readable
  · have hread := h.readable
    rw [← List.singleton_append, ← List.append_assoc, readable_append] at hread
    exact ((Flows.list _).append (Flows.parenthesis (.inl h.opening_kind))).readable trivial hread.1
  · rfl

theorem lex_back (h : Cut front inner back before opening ts closing after unclosed tail) :
    lex back = .ok ⟨after.flatMap Segment.tokens ++ unclosed, tail⟩ := by
  obtain ⟨-, -, hrest⟩ := readable_append.1 h.readable
  obtain ⟨-, -, hafter⟩ := readable_append.1 hrest
  have hback : sourceOf (after.flatMap Segment.tokens ++ unclosed) ++ tail = back := by
    have hsource := h.into.source_eq.symm
    rw [enclose, h.front_eq, h.inner_eq] at hsource
    simpa [sourceOf_segments, Segment.tokens, Token.source, h.opening_text, h.closing_text]
      using hsource
  rw [← hback]
  exact lex_of_readable hafter h.into.ends

theorem unique {inner' : Text} {before' : List Segment} {opening' : Token} {ts' : List Token}
    {closing' : Token} {after' : List Segment} {unclosed' : List Token} {tail' : Text}
    (h : Cut front inner back before opening ts closing after unclosed tail)
    (h' : Cut front inner' back before' opening' ts' closing' after' unclosed' tail') :
    before' = before ∧ opening' = opening ∧ after' = after ∧ unclosed' = unclosed ∧ tail' = tail := by
  -- The tokens in front of the sub-select and those behind it are those of `front ++ ['(']` and of
  -- `back`, whatever stands between them.
  obtain ⟨tokens, -, hsegs⟩ := h.into.lexed
  obtain ⟨tokens', -, hsegs'⟩ := h'.into.lexed
  obtain ⟨hfront, hback⟩ := segments_around hsegs
  obtain ⟨hfront', hback'⟩ := segments_around hsegs'
  have hlex : (⟨_, []⟩ : Lexed) = ⟨_, []⟩ := Except.ok.inj (h.lex_front.symm.trans h'.lex_front)
  have hlex' : (⟨_, tail⟩ : Lexed) = ⟨_, tail'⟩ := Except.ok.inj (h.lex_back.symm.trans h'.lex_back)
  obtain ⟨htokens, -⟩ := Lexed.mk.inj hlex
  obtain ⟨htokens', rfl⟩ := Lexed.mk.inj hlex'
  rw [← htokens, hfront] at hfront'
  rw [← htokens', hback] at hback'
  obtain ⟨rfl, hopening⟩ := List.append_inj' (Prod.mk.inj hfront').1 rfl
  obtain ⟨rfl, rfl⟩ := Prod.mk.inj hback'
  cases hopening
  exact ⟨rfl, rfl, rfl, rfl, rfl⟩

end Cut

end SoftDelete
