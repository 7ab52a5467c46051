import SoftDelete.Proofs.Isolation.Subselect

namespace SoftDelete

def Token.kind? (t : Token) : Option Token.Kind :=
  some t.kind

theorem segments_closed {ts : List Token}
    (h : ∀ front t rest, ts = front ++ t :: rest → t.kind = .lparen →
      ¬ StaysOpen Token.kind? 0 rest) : (segments ts).2 = [] := by
  fun_induction segments ts with
  | case1 => rfl
  | case2 t ts hopens hnone =>
      have ht : t.kind = .lparen := by simpa using (Bool.and_eq_true_iff.1 hopens).1
      exact absurd (enclosed?_eq_none.1 hnone) (h [] t ts rfl ht)
  | case3 t ts hopens inner closing rest hclosed later unclosed hs ih =>
      rw [hs] at ih
      refine ih fun front u more hrest => h (t :: (inner ++ closing :: front)) u more ?_
      rw [append_of_enclosed? hclosed, hrest]
      simp
  | case4 t ts hopens later unclosed hs ih =>
      rw [hs] at ih
      exact ih fun front u more hts => h (t :: front) u more (by rw [hts, List.cons_append])

theorem opens_of_unclosed {ts us : List Token} {t : Token} (h : (segments ts).2 = t :: us) :
    opensSubselect t us = true ∧ StaysOpen Token.kind? 0 us := by
  fun_induction segments ts with
  | case1 => cases h
  | case2 t ts hopens hnone =>
      cases h
      exact ⟨hopens, enclosed?_eq_none.1 hnone⟩
  | case3 t ts hopens inner closing rest hclosed later unclosed hs ih =>
      rw [hs] at ih
      exact ih h
  | case4 t ts hopens later unclosed hs ih =>
      rw [hs] at ih
      exact ih h

theorem enclosed?_of_mem_segments {ts inner : List Token} {opening closing : Token}
    (h : .subselect opening inner closing ∈ (segments ts).1) :
    ∃ us rest, enclosed? Token.kind? 0 us = some (inner, closing, rest) := by
  fun_induction segments ts with
  | case1 => cases h
  | case2 => cases h
  | case3 t ts hopens inner' closing' rest hclosed later unclosed hs ih =>
      rw [hs] at ih
      rcases List.mem_cons.1 h with heq | h
      · cases heq
        exact ⟨ts, rest, hclosed⟩
      · exact ih h
  | case4 t ts hopens later unclosed hs ih =>
      rw [hs] at ih
      rcases List.mem_cons.1 h with heq | h
      · cases heq
      · exact ih h

theorem not_staysOpen_inner {us front dashes rest later : List Token} {closing t : Token}
    (h : enclosed? Token.kind? 0 us = some (front ++ t :: rest ++ dashes, closing, later))
    (ht : t.kind = .lparen)
    (hdashes : ∀ u ∈ dashes, u.kind? ≠ some .lparen ∧ u.kind? ≠ some .rparen) :
    ¬ StaysOpen Token.kind? 0 rest := by
  intro hopen
  have hcount := closings_of_enclosed? h
  have hfront := staysOpen_of_enclosed? h front (by simp)
  have hrest := hopen rest List.prefix_rfl
  obtain ⟨hopenings, hclosings⟩ := counts_of_flat hdashes
  have hlparen : Token.kind? t = some .lparen := congrArg some ht
  simp only [openings_append, closings_append, openings_cons, closings_cons, hlparen, hopenings,
    hclosings] at hcount
  simp at hcount
  omega

theorem CutInto.body_closed {sql tail : Text} {segs : List Segment} {unclosed inner : List Token}
    {opening closing : Token} (h : CutInto sql segs unclosed tail)
    (hmem : .subselect opening inner closing ∈ segs) :
    ∃ l, lex (sourceOf inner ++ closing.gap) = .ok l ∧ (segments l.tokens).2 = [] := by
  obtain ⟨front, dashes, rfl, hdashes, hlex⟩ := h.lex_body hmem
  refine ⟨_, hlex, segments_closed fun before t rest hfront ht => ?_⟩
  obtain ⟨tokens, -, hsegs⟩ := h.lexed
  have hmem' := hmem
  rw [show segs = (segments tokens).1 by rw [hsegs]] at hmem'
  obtain ⟨us, later, hclosed⟩ := enclosed?_of_mem_segments hmem'
  rw [show front = before ++ t :: rest from hfront] at hclosed
  refine not_staysOpen_inner hclosed ht fun u hu => ?_
  obtain ⟨r, hr⟩ := h.stands (t := u) (List.mem_flatMap.2 ⟨_, hmem, by simp [Segment.tokens, hu]⟩)
  have hkind := (hdashes u hu ▸ hr.lexeme).kind_of_dash
  simp [Token.kind?, hkind]

end SoftDelete
