import Mathlib.Data.List.Forall2
import SoftDelete.Proofs.Bounds.Rendering
import SoftDelete.Proofs.Sql.Ending
import SoftDelete.Proofs.Sql.Filler

namespace SoftDelete

def gapsFrom (start stop : Nat) : List (Nat × Nat) → List (Nat × Nat)
  | [] => [(start, stop)]
  | span :: spans => (start, span.1) :: gapsFrom span.2 stop spans

structure Token.Takes (source : Text) (span : Nat × Nat) (t : Token) : Prop where
  nonempty : span.1 < span.2
  inside : span.2 ≤ Text.byteSize source
  starts : source.isBoundary span.1 = true
  stops : source.isBoundary span.2 = true
  text : source.slice span.1 span.2 = t.text

structure Lexed.Partitions (source : Text) (l : Lexed) : Prop where
  spans : List.Forall₂ (Token.Takes source) (spansFrom 0 l.tokens) l.tokens
  ordered : (spansFrom 0 l.tokens).Pairwise fun a b => a.1 < b.1 ∧ a.2 ≤ b.1
  gaps : ∀ span ∈ gapsFrom 0 (Text.byteSize source) (spansFrom 0 l.tokens),
    ∃ gap, source.slice? span.1 span.2 = some gap ∧ Lexed.ofText gap = .ok ⟨[], gap⟩ ∧
      Filler (span.2 = Text.byteSize source) gap
  alone : ∀ t ∈ l.tokens, Lexed.ofText t.text = .ok ⟨[⟨[], t.kind, t.text⟩], []⟩
  enclosed : ∀ t ∈ l.tokens, ∀ q, t.kind = .quoted q →
    ∃ body, t.text = q.mark :: (body ++ [q.mark])

section Spans

variable {ts : List Token}

theorem le_of_mem_spansFrom {offset : Nat} {span : Nat × Nat} (h : span ∈ spansFrom offset ts) :
    offset ≤ span.1 := by
  induction ts generalizing offset with
  | nil => cases h
  | cons t ts ih =>
      rcases List.mem_cons.1 h with rfl | h
      · exact Nat.le_add_right _ _
      · have := ih h
        omega

theorem spansFrom_pairwise (h : ∀ t ∈ ts, t.text ≠ []) (offset : Nat) :
    (spansFrom offset ts).Pairwise fun a b => a.1 < b.1 ∧ a.2 ≤ b.1 := by
  induction ts generalizing offset with
  | nil => exact .nil
  | cons t ts ih =>
      refine .cons ?_ (ih (fun u hu => h u (List.mem_cons_of_mem t hu)) _)
      intro span hspan
      have hstop := le_of_mem_spansFrom hspan
      have hpos := byteSize_pos (h t (by simp))
      exact ⟨Nat.lt_of_lt_of_le (Nat.lt_add_of_pos_right hpos) hstop, hstop⟩

theorem takes_append {front : Text} {t : Token} (ht : t.text ≠ []) (rest : Text) :
    t.Takes (front ++ (t.source ++ rest)) (Text.byteSize front + Text.byteSize t.gap,
      Text.byteSize front + Text.byteSize t.gap + Text.byteSize t.text) := by
  have hsplit : front ++ (t.source ++ rest) = front ++ t.gap ++ (t.text ++ rest) := by
    simp [Token.source]
  have hstop := Text.isBoundary_byteSize (front ++ t.gap ++ t.text) rest
  simp only [Text.byteSize_append, List.append_assoc] at hstop
  rw [hsplit, ← Text.byteSize_append]
  constructor
  · exact Nat.lt_add_of_pos_right (byteSize_pos ht)
  · simp only [Text.byteSize_append]
    omega
  · exact Text.isBoundary_byteSize _ _
  · simpa [Nat.add_assoc] using hstop
  · exact Text.slice_append _ _ _

theorem takes_spansFrom (h : ∀ t ∈ ts, t.text ≠ []) (front tail : Text) :
    List.Forall₂ (Token.Takes (front ++ (sourceOf ts ++ tail)))
      (spansFrom (Text.byteSize front) ts) ts := by
  induction ts generalizing front with
  | nil => exact .nil
  | cons t ts ih =>
      have hlater := ih (fun u hu => h u (List.mem_cons_of_mem t hu)) (front ++ t.source)
      simp only [Token.source, Text.byteSize_append, ← Nat.add_assoc] at hlater
      rw [sourceOf_cons, List.append_assoc]
      exact .cons (takes_append (h t (by simp)) _) (by simpa [Token.source] using hlater)

theorem slice?_gapsFrom (front : Text) {tail : Text} {span : Nat × Nat}
    (h : span ∈ gapsFrom (Text.byteSize front) (Text.byteSize (front ++ (sourceOf ts ++ tail)))
      (spansFrom (Text.byteSize front) ts)) :
    ∃ gap, (front ++ (sourceOf ts ++ tail)).slice? span.1 span.2 = some gap ∧
      ((∃ t ∈ ts, t.gap = gap) ∨
        (gap = tail ∧ span.2 = Text.byteSize (front ++ (sourceOf ts ++ tail)))) := by
  induction ts generalizing front with
  | nil =>
      obtain rfl := List.mem_singleton.1 h
      refine ⟨tail, ?_, .inr ⟨rfl, rfl⟩⟩
      simpa using Text.slice?_append front tail []
  | cons t ts ih =>
      rcases List.mem_cons.1 h with rfl | h
      · refine ⟨t.gap, ?_, .inl ⟨t, by simp, rfl⟩⟩
        simpa [Token.source] using
          Text.slice?_append front t.gap (t.text ++ (sourceOf ts ++ tail))
      · have hlater := ih (front ++ t.source)
        simp only [Token.source, Text.byteSize_append, ← Nat.add_assoc, List.append_assoc] at hlater
        simp only [sourceOf_cons, Token.source, Text.byteSize_append, List.append_assoc,
          ← Nat.add_assoc] at h ⊢
        obtain ⟨gap, hslice, hgap⟩ := hlater h
        refine ⟨gap, hslice, hgap.imp_left ?_⟩
        rintro ⟨u, hu, rfl⟩
        exact ⟨u, List.mem_cons_of_mem t hu, rfl⟩

end Spans

theorem lex_gap {gap : Text} (h : gapLength .between gap = gap.length) : lex gap = .ok ⟨[], gap⟩ := by
  have hread : Readable [] gap := trivial
  exact lex_of_readable hread h

theorem Lexeme.lex_alone {kind : Token.Kind} {x r : Text} (h : Lexeme kind x r) :
    lex x = .ok ⟨[⟨[], kind, x⟩], []⟩ := by
  have hread : Readable [⟨[], kind, x⟩] [] := ⟨⟨closedGap_nil, h.calmer (.nil r)⟩, trivial⟩
  simpa [Token.source] using lex_of_readable hread rfl

theorem Lexed.partitions {s : Text} {l : Lexed} (h : lex s = .ok l) : l.Partitions s := by
  obtain ⟨hread, htail⟩ := readable_of_lex h
  obtain rfl := source_of_lex h
  have hsolid : ∀ t ∈ l.tokens, t.text ≠ [] := fun t ht =>
    (hread.stands ht).choose_spec.lexeme.text_ne_nil
  constructor
  · exact takes_spansFrom hsolid [] l.tail
  · exact spansFrom_pairwise hsolid 0
  · intro span hspan
    obtain ⟨gap, hslice, ⟨t, ht, rfl⟩ | ⟨rfl, hend⟩⟩ := slice?_gapsFrom [] hspan
    · obtain ⟨r, hr⟩ := hread.stands ht
      have hlength : gapLength .between t.gap = t.gap.length := by
        simpa [gapLength] using hr.gap []
      have hfiller := closedGap_iff.1 hr.gap
      exact ⟨t.gap, hslice, ofText_of_lex (lex_gap hlength), hfiller.mono False.elim⟩
    · have hfiller := gapLength_eq_length_iff.1 htail
      exact ⟨l.tail, hslice, ofText_of_lex (lex_gap htail), hfiller.mono fun _ => hend⟩
  · intro t ht
    obtain ⟨r, hr⟩ := hread.stands ht
    exact ofText_of_lex hr.lexeme.lex_alone
  · rintro t ht q hq
    obtain ⟨r, hr⟩ := hread.stands ht
    exact (hq ▸ hr.lexeme).quoted_text

structure StopsAt (s : Text) (offset : Nat) (ts : List Token) (gap : Text) (q : Quote)
    (rest : Text) : Prop where
  source : s = sourceOf ts ++ (gap ++ q.mark :: rest)
  offset : offset = Text.byteSize (sourceOf ts ++ gap)
  readable : Readable ts (gap ++ q.mark :: rest)
  gap : ClosedGap gap
  unclosed : quotedLength? q rest = none

theorem mark_of_lexeme? {c : Char} {s : Text} (h : lexeme? c s = none) :
    ∃ q : Quote, c = q.mark ∧ quotedLength? q s = none := by
  unfold lexeme? at h
  split at h
  · rename_i q hq
    exact ⟨q, Quote.eq_mark_of_ofMark? hq, Option.map_eq_none_iff.1 h⟩
  · split at h
    · cases h
    · split at h <;> cases h

theorem exists_stopsAt {s : Text} {offset : Nat} (h : lex s = .error offset) :
    ∃ ts gap q rest, StopsAt s offset ts gap q rest := by
  fun_induction lex s generalizing offset with
  | case1 => cases h
  | case2 s c r hs gap =>
      cases h
      rename_i hlexeme
      obtain ⟨q, rfl, hq⟩ := mark_of_lexeme? hlexeme
      have hsplit := List.take_append_drop (gapLength .between s) s
      rw [hs] at hsplit
      exact ⟨[], gap, q, r, hsplit.symm, rfl, trivial, (behind_gap hs).1, hq⟩
  | case3 => cases h
  | case4 s c r hs gap kind n hlexeme token inner hinner =>
      rename_i ih
      cases h
      obtain ⟨ts, last, q, rest, hstop⟩ := ih hinner
      obtain ⟨hclosed, hstart⟩ := behind_gap hs
      have hsplit := List.take_append_drop (gapLength .between s) s
      have hr : r.take n ++ (sourceOf ts ++ (last ++ q.mark :: rest)) = r := by
        rw [← hstop.source, List.take_append_drop]
      have hlen : (r.take n).length = n := List.length_take_of_le (lexeme?_le hlexeme)
      refine ⟨token :: ts, last, q, rest, ?_, ?_, ⟨⟨hclosed, .intro ?_ ?_⟩, hstop.readable⟩,
        hstop.gap, hstop.unclosed⟩
      · rw [hs] at hsplit
        rw [← hsplit, ← hr]
        simp [token, gap, Token.source]
      · rw [hstop.offset]
        simp
      · rw [hr, hstart]
      · rw [hr, hlen, hlexeme]

theorem Lexed.ofText_partitions_or_stops (s : Text) :
    (∃ l, Lexed.ofText s = .ok l ∧ l.Partitions s) ∨
      ∃ front, ∃ q : Quote, ∃ rest, s = front ++ q.mark :: rest ∧
        Lexed.ofText s = .error (.unclosedQuote (Text.byteSize front)) ∧
        quotedLength? q rest = none ∧ ∃ l, Lexed.ofText front = .ok l := by
  cases h : lex s with
  | ok l => exact .inl ⟨l, ofText_of_lex h, Lexed.partitions h⟩
  | error offset =>
      obtain ⟨ts, gap, q, rest, hstop⟩ := exists_stopsAt h
      obtain ⟨read, dashes, -, -, hfront⟩ := lex_inner hstop.readable hstop.gap
      refine .inr ⟨sourceOf ts ++ gap, q, rest, by simpa using hstop.source, ?_, hstop.unclosed, _,
        ofText_of_lex hfront⟩
      rw [Lexed.ofText, h, hstop.offset]
      rfl

theorem Lexed.ofText_partitions_or_stops_mixed :
    let token (gap : String) (kind : Token.Kind) (text : String) : Token :=
      ⟨gap.toList, kind, text.toList⟩
    let s := "é--\t1\n1.5/*/ * */,`a``b`#x\n'it''s \\' '\"\\\"\" 1.x 3--4<=>/***/-- ".toList
    let l : Lexed := ⟨[token "" .word "é", token "--\t1\n" .number "1.5",
      token "/*/ * */" .comma ",", token "" (.quoted .backtick) "`a``b`",
      token "#x\n" (.quoted .single) "'it''s \\' '", token "" (.quoted .double) "\"\\\"\"",
      token " " .number "1", token "" .dot ".", token "" .word "x", token " " .number "3",
      token "" .operator "-", token "" .operator "-", token "" .number "4",
      token "" .operator "<=>"], "/***/-- ".toList⟩
    let unclosed := "SELECT 'a''\\' -- '' ".toList
    Lexed.ofText s = .ok l ∧ l.Partitions s ∧
      ∃ front, ∃ q : Quote, ∃ rest, unclosed = front ++ q.mark :: rest ∧
        Lexed.ofText unclosed = .error (.unclosedQuote (Text.byteSize front)) ∧
        Text.byteSize front = 7 ∧ quotedLength? q rest = none ∧
        ∃ l, Lexed.ofText front = .ok l := by
  intro token s l unclosed
  have hs : Lexed.ofText s = .ok l := by decide +kernel
  have hunclosed : Lexed.ofText unclosed = .error (.unclosedQuote 7) := by decide +kernel
  refine ⟨hs, ?_, ?_⟩
  · rcases Lexed.ofText_partitions_or_stops s with ⟨l', hl', hpart⟩ | ⟨_, _, _, -, herror, -⟩
    · rw [hs] at hl'
      rwa [Except.ok.inj hl']
    · rw [hs] at herror
      cases herror
  · rcases Lexed.ofText_partitions_or_stops unclosed with
      ⟨_, hok, -⟩ | ⟨front, q, rest, hsplit, herror, hrest, hfront⟩
    · rw [hunclosed] at hok
      cases hok
    · have hsize : Text.byteSize front = 7 := by
        rw [hunclosed] at herror
        exact (Failure.unclosedQuote.inj (Except.error.inj herror)).symm
      exact ⟨front, q, rest, hsplit, herror, hsize, hrest, hfront⟩

end SoftDelete
