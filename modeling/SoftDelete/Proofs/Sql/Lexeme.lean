import Mathlib.Data.List.TakeWhile
import SoftDelete.Proofs.Sql.Gap

namespace SoftDelete

inductive Lexeme : Token.Kind → Text → Text → Prop where
  | intro {kind : Token.Kind} {c : Char} {x r : Text}
      (hgap : gapLength .between (c :: (x ++ r)) = 0)
      (hread : lexeme? c (x ++ r) = some (kind, x.length)) : Lexeme kind (c :: x) r

def isNeutral (c : Char) : Bool :=
  c == ' ' || c == '(' || c == ')' || c == ',' || c == '.'

theorem isNeutral_iff {c : Char} :
    isNeutral c = true ↔ c = ' ' ∨ c = '(' ∨ c = ')' ∨ c = ',' ∨ c = '.' := by
  simp [isNeutral, or_assoc]

theorem isNamePart_of_isNeutral {c : Char} (h : isNeutral c = true) : isNamePart c = false := by
  rcases isNeutral_iff.1 h with rfl | rfl | rfl | rfl | rfl <;> decide

theorem isDigit_of_isNeutral {c : Char} (h : isNeutral c = true) : c.isDigit = false := by
  rcases isNeutral_iff.1 h with rfl | rfl | rfl | rfl | rfl <;> decide

theorem ne_mark_of_isNeutral {c : Char} (h : isNeutral c = true) (q : Quote) : c ≠ q.mark := by
  rcases isNeutral_iff.1 h with rfl | rfl | rfl | rfl | rfl <;> cases q <;> decide

theorem not_mem_operator_of_isNeutral {c : Char} (h : isNeutral c = true) :
    ∀ op ∈ operators, c ∉ op := by
  rcases isNeutral_iff.1 h with rfl | rfl | rfl | rfl | rfl <;> decide

theorem isBlank_of_mem_operators : ∀ op ∈ operators, ∀ c ∈ op, isBlank c = false := by
  have hall : (operators.all fun op => op.all fun c => !isBlank c) = true := by decide
  simpa using hall

theorem length_le_of_mem_operators : ∀ op ∈ operators, op.length ≤ 3 := by
  decide

/-- What follows as `r'` lengthens no name that `r` ends. -/
structure Tamer (r r' : Text) : Prop where
  head : ∀ c, r'.head? = some c → r.head? = some c ∨ isNeutral c = true
  operator : ∀ (c : Char) (y : Text), ∀ op ∈ operators, op <+: c :: y ++ r' → op <+: c :: y ++ r

/-- Nor a number, and turns no dash into a comment. -/
structure Calmer (r r' : Text) : Prop extends Tamer r r' where
  fraction : fractionLength r = 0 → fractionLength r' = 0
  dash : opensLineComment '-' r' = true → opensLineComment '-' r = true

/-- Nor two dashes. -/
structure Safe (r r' : Text) : Prop extends Calmer r r' where
  dashes : opensLineComment '-' ('-' :: r') = true → opensLineComment '-' ('-' :: r) = true

namespace Tamer

variable {r r' : Text}

theorem takeWhile_nil (h : Tamer r r') {p : Char → Bool}
    (hp : ∀ c, isNeutral c = true → p c = false) (hr : r.takeWhile p = []) :
    r'.takeWhile p = [] := by
  cases r' with
  | nil => rfl
  | cons c r' =>
      have hc : p c = false := by
        rcases h.head c rfl with hsame | hneutral
        · cases r with
          | nil => cases hsame
          | cons d r =>
              obtain rfl : d = c := by simpa using hsame
              cases hd : p d with
              | false => rfl
              | true => simp [hd] at hr
        · exact hp c hneutral
      simp [hc]

theorem head_ne_mark (h : Tamer r r') {q : Quote} (hr : r.head? ≠ some q.mark) :
    r'.head? ≠ some q.mark := by
  intro hr'
  rcases h.head _ hr' with hsame | hneutral
  · exact hr hsame
  · exact ne_mark_of_isNeutral hneutral q rfl

end Tamer

theorem takeWhile_append_eq {p : Char → Bool} {x r : Text}
    (h : ((x ++ r).takeWhile p).length = x.length) :
    (x ++ r).takeWhile p = x ∧ r.takeWhile p = [] := by
  rw [List.takeWhile_append] at h ⊢
  split at h
  · have hr : r.takeWhile p = [] := by simpa using h
    exact ⟨by rw [if_pos ‹_›, hr, List.append_nil], hr⟩
  · exact absurd h ‹_›

theorem takeWhile_append_of_eq {p : Char → Bool} {x r r' : Text}
    (hx : (x ++ r).takeWhile p = x) (hr : r'.takeWhile p = []) : (x ++ r').takeWhile p = x := by
  have hall : ∀ c ∈ x, p c = true := by
    intro c hc
    rw [← hx] at hc
    exact List.mem_takeWhile_imp hc
  rw [List.takeWhile_append_of_pos hall, hr, List.append_nil]

theorem quotedLength?_pos {q : Quote} {s : Text} {n : Nat} (h : quotedLength? q s = some n) :
    0 < n := by
  match s with
  | [] => cases h
  | [c] =>
      simp only [quotedLength?] at h
      split at h <;> cases h
      exact Nat.one_pos
  | c :: d :: s =>
      simp only [quotedLength?] at h
      split at h
      · obtain ⟨m, -, rfl⟩ := Option.map_eq_some_iff.1 h
        omega
      · split at h
        · cases h
          exact Nat.one_pos
        · obtain ⟨m, -, rfl⟩ := Option.map_eq_some_iff.1 h
          omega

theorem quotedLength?_single {q : Quote} {c : Char} {r : Text}
    (h : quotedLength? q (c :: r) = some 1) : c = q.mark ∧ r.head? ≠ some q.mark := by
  cases r with
  | nil =>
      simp only [quotedLength?] at h
      split at h
      · rename_i hc
        exact ⟨by simpa using hc, by simp⟩
      · cases h
  | cons d r =>
      simp only [quotedLength?] at h
      split at h
      · obtain ⟨m, -, hm⟩ := Option.map_eq_some_iff.1 h
        omega
      · rename_i hesc
        split at h
        · rename_i hc
          have hc : c = q.mark := by simpa using hc
          refine ⟨hc, ?_⟩
          rintro hd
          obtain rfl : d = q.mark := by simpa using hd
          simp [Quote.escapes, hc] at hesc
        · obtain ⟨m, hm, hm'⟩ := Option.map_eq_some_iff.1 h
          have hpos := quotedLength?_pos hm
          omega

theorem quotedLength?_mark {q : Quote} {r : Text} (h : r.head? ≠ some q.mark) :
    quotedLength? q (q.mark :: r) = some 1 := by
  cases r with
  | nil => simp [quotedLength?]
  | cons d r =>
      have hd : d ≠ q.mark := by simpa using h
      have hesc : q.escapes q.mark d = false := by
        cases q <;> simp_all [Quote.escapes, Quote.mark]
      simp [quotedLength?, hesc]

theorem quotedLength?_change {q : Quote} {x r r' : Text}
    (hr : r.head? ≠ some q.mark → r'.head? ≠ some q.mark)
    (h : quotedLength? q (x ++ r) = some x.length) : quotedLength? q (x ++ r') = some x.length := by
  match x with
  | [] => exact absurd (quotedLength?_pos h) (Nat.lt_irrefl 0)
  | [c] =>
      obtain ⟨rfl, hne⟩ := quotedLength?_single h
      exact quotedLength?_mark (hr hne)
  | c :: d :: x =>
      simp only [List.cons_append, quotedLength?, List.length_cons] at h ⊢
      split at h
      · rename_i hesc
        obtain ⟨m, hm, hlen⟩ := Option.map_eq_some_iff.1 h
        obtain rfl : m = x.length := by omega
        rw [if_pos hesc, quotedLength?_change hr hm]
        rfl
      · rename_i hesc
        rw [if_neg hesc]
        split at h
        · cases h
        · rename_i hmark
          obtain ⟨m, hm, hlen⟩ := Option.map_eq_some_iff.1 h
          obtain rfl : m = (d :: x).length := by simpa using hlen
          have hrest := quotedLength?_change (x := d :: x) hr hm
          rw [if_neg hmark, ← List.cons_append, hrest]
          rfl

theorem fractionLength_eq_zero_or {s : Text} :
    fractionLength s = 0 ∨ ∃ d t, s = '.' :: d :: t ∧ d.isDigit = true ∧
      fractionLength s = (t.takeWhile Char.isDigit).length + 2 := by
  unfold fractionLength
  split
  · rename_i d t
    by_cases hd : d.isDigit = true
    · exact .inr ⟨d, t, rfl, hd, by rw [if_pos hd]⟩
    · exact .inl (if_neg hd)
  · exact .inl rfl

theorem exists_fraction {x r : Text} {d : Char} {t : Text}
    (hdrop : (x ++ r).drop ((x ++ r).takeWhile isNamePart).length = '.' :: d :: t)
    (hlen : ((x ++ r).takeWhile isNamePart).length + ((t.takeWhile Char.isDigit).length + 2) =
      x.length) :
    ∃ w ds, x = w ++ '.' :: d :: ds ∧ (x ++ r).takeWhile isNamePart = w ∧
      (ds ++ r).takeWhile Char.isDigit = ds ∧ r.takeWhile Char.isDigit = [] := by
  have hw := List.prefix_iff_eq_take.1 (List.takeWhile_prefix (l := x ++ r) isNamePart)
  have hsplit := List.take_append_drop ((x ++ r).takeWhile isNamePart).length (x ++ r)
  rw [hdrop, ← hw] at hsplit
  have ht := List.takeWhile_append_dropWhile (p := Char.isDigit) (l := t)
  rw [← ht, ← List.cons_append, ← List.cons_append, ← List.append_assoc] at hsplit
  obtain ⟨hx, hr⟩ := List.append_inj hsplit (by simpa [Nat.add_comm, Nat.add_left_comm] using hlen)
  have hdigits : (t.takeWhile Char.isDigit ++ r).takeWhile Char.isDigit =
      t.takeWhile Char.isDigit := by
    rw [← hr, ht]
  exact ⟨_, _, hx.symm, rfl, hdigits, (takeWhile_append_eq (by rw [hdigits])).2⟩

theorem wordLexeme_change {kind : Token.Kind} {c : Char} {x r r' : Text} (hr : Tamer r r')
    (hfraction : kind = .number → fractionLength r = 0 → fractionLength r' = 0)
    (h : wordLexeme c (x ++ r) = (kind, x.length)) : wordLexeme c (x ++ r') = (kind, x.length) := by
  have hwhole : ((x ++ r).takeWhile isNamePart).length = x.length →
      (x ++ r).takeWhile isNamePart = x ∧ (x ++ r').takeWhile isNamePart = x := by
    intro hlen
    obtain ⟨hx, hstop⟩ := takeWhile_append_eq hlen
    exact ⟨hx, takeWhile_append_of_eq hx
      (hr.takeWhile_nil (fun c hc => isNamePart_of_isNeutral hc) hstop)⟩
  simp only [wordLexeme] at h ⊢
  split at h
  · rename_i hdigits
    simp only [Prod.mk.injEq] at h
    obtain ⟨rfl, hlen⟩ := h
    rcases fractionLength_eq_zero_or (s := (x ++ r).drop ((x ++ r).takeWhile isNamePart).length)
      with hzero | ⟨d, t, hdrop, hd, hpoint⟩
    · rw [hzero] at hlen
      obtain ⟨hx, hx'⟩ := hwhole hlen
      rw [hx, List.take_left] at hdigits
      rw [hx, List.drop_left] at hzero
      rw [hx', List.take_left, List.drop_left, if_pos hdigits, hfraction rfl hzero]
      rfl
    · rw [hpoint] at hlen
      obtain ⟨w, ds, rfl, hw, hds, hstop⟩ := exists_fraction hdrop hlen
      have hpart : isNamePart '.' = false := by decide
      have hw' : (w ++ ('.' :: d :: ds ++ r')).takeWhile isNamePart = w := by
        rw [List.append_assoc] at hw
        exact takeWhile_append_of_eq hw (by simp [hpart])
      have hstop' := hr.takeWhile_nil (fun c hc => isDigit_of_isNeutral hc) hstop
      rw [hw, List.append_assoc, List.take_left] at hdigits
      have hnew : fractionLength ('.' :: d :: ds ++ r') = ds.length + 2 := by
        simp [fractionLength, hd, takeWhile_append_of_eq hds hstop']
      rw [List.append_assoc, hw', List.take_left, List.drop_left, if_pos hdigits, hnew]
      simp
  · rename_i hdigits
    simp only [Prod.mk.injEq] at h
    obtain ⟨rfl, hlen⟩ := h
    obtain ⟨hx, hx'⟩ := hwhole hlen
    rw [hx, List.take_left] at hdigits
    rw [hx', List.take_left, if_neg hdigits]

theorem operator_change {c : Char} {x r r' : Text} {op : Text} (hr : Tamer r r')
    (h : operators.find? (·.isPrefixOf (c :: (x ++ r))) = some op)
    (hlen : op.length - 1 = x.length) :
    operators.find? (·.isPrefixOf (c :: (x ++ r'))) = some op ∧ op = c :: x := by
  rw [List.find?_eq_some_iff_append] at h ⊢
  obtain ⟨hop, front, rest, hsplit, hfront⟩ := h
  have hprefix : op <+: c :: x ++ r := by simpa using hop
  have hpos : op ≠ [] := by
    rintro rfl
    exact absurd (hsplit ▸ (by simp : [] ∈ front ++ [] :: rest)) (by decide)
  have heq : op = c :: x := by
    have hcut : op.length = (c :: x).length := by
      have := List.length_pos_iff.2 hpos
      simp only [List.length_cons]
      omega
    rw [List.prefix_iff_eq_take.1 hprefix, hcut, List.take_left]
  refine ⟨⟨?_, front, rest, hsplit, ?_⟩, heq⟩
  · simp [heq]
  · intro other hother
    have hmem : other ∈ operators := hsplit ▸ List.mem_append_left _ hother
    have hnot := hfront other hother
    simp only [Bool.not_eq_true', ← Bool.not_eq_true, List.isPrefixOf_iff_prefix] at hnot ⊢
    exact fun hlonger => hnot (hr.operator c x other hmem hlonger)

theorem punctuation_change {c : Char} {r r' : Text} (hr : Tamer r r')
    (h : operators.find? (·.isPrefixOf (c :: r)) = none) :
    operators.find? (·.isPrefixOf (c :: r')) = none := by
  rw [List.find?_eq_none] at h ⊢
  intro op hop hprefix
  apply h op hop
  simpa using hr.operator c [] op hop (by simpa using hprefix)

theorem lexeme?_single {c : Char} {s : Text} {kind : Token.Kind} {n : Nat}
    (hc : c = '-' ∨ c = '/') (h : lexeme? c s = some (kind, n)) : n = 0 := by
  have hop : ∀ op ∈ operators, op.head? = some c → op.length = 1 := by
    rcases hc with rfl | rfl <;> decide
  have hmark : Quote.ofMark? c = none ∧ isNamePart c = false := by
    rcases hc with rfl | rfl <;> decide
  simp only [lexeme?, hmark.1, hmark.2, Bool.false_eq_true, if_false] at h
  split at h
  · rename_i op hfind
    have hprefix : op <+: c :: s := by simpa using List.find?_some hfind
    cases op with
    | nil => exact absurd (List.mem_of_find?_eq_some hfind) (by decide)
    | cons d op =>
        obtain ⟨rfl, -⟩ := List.cons_prefix_cons.1 hprefix
        have hone := hop _ (List.mem_of_find?_eq_some hfind) rfl
        simp only [hone, Option.some.injEq, Prod.mk.injEq] at h
        exact h.2.symm
  · cases h
    rfl

theorem quotedLength?_le {q : Quote} {s : Text} {n : Nat} (h : quotedLength? q s = some n) :
    n ≤ s.length := by
  match s with
  | [] => cases h
  | [c] =>
      simp only [quotedLength?] at h
      split at h <;> cases h
      exact Nat.le_refl 1
  | c :: d :: s =>
      simp only [quotedLength?] at h
      split at h
      · obtain ⟨m, hm, rfl⟩ := Option.map_eq_some_iff.1 h
        exact Nat.add_le_add_right (quotedLength?_le hm) 2
      · split at h
        · cases h
          simp
        · obtain ⟨m, hm, rfl⟩ := Option.map_eq_some_iff.1 h
          exact Nat.add_le_add_right (quotedLength?_le hm) 1

theorem fractionLength_le (s : Text) : fractionLength s ≤ s.length := by
  rcases fractionLength_eq_zero_or (s := s) with hzero | ⟨d, t, rfl, -, hpoint⟩
  · omega
  · have := (List.takeWhile_prefix (l := t) Char.isDigit).length_le
    simp only [hpoint, List.length_cons]
    omega

theorem wordLexeme_le (c : Char) (s : Text) : (wordLexeme c s).2 ≤ s.length := by
  have hword := (List.takeWhile_prefix (l := s) isNamePart).length_le
  have hfraction := fractionLength_le (s.drop (s.takeWhile isNamePart).length)
  rw [List.length_drop] at hfraction
  simp only [wordLexeme]
  split
  · omega
  · exact hword

theorem lexeme?_le {c : Char} {s : Text} {kind : Token.Kind} {n : Nat}
    (h : lexeme? c s = some (kind, n)) : n ≤ s.length := by
  unfold lexeme? at h
  split at h
  · obtain ⟨m, hm, hkind⟩ := Option.map_eq_some_iff.1 h
    cases hkind
    exact quotedLength?_le hm
  · split at h
    · have hle := wordLexeme_le c s
      rw [Option.some.inj h] at hle
      exact hle
    · split at h
      · rename_i op hfind
        have hprefix : op <+: c :: s := by simpa using List.find?_some hfind
        have hle := hprefix.length_le
        cases h
        rw [List.length_cons] at hle
        omega
      · cases h
        exact Nat.zero_le _

theorem gapLength_eq_zero_iff {c : Char} {s : Text} :
    gapLength .between (c :: s) = 0 ↔
      isBlank c = false ∧ opensLineComment c s = false ∧ (c = '/' → s.head? ≠ some '*') := by
  simp only [gapLength]
  split
  · simp [*]
  · split
    · simp [*]
    · split
      · simp_all
      · simp_all

theorem Lexeme.change {kind : Token.Kind} {x r r' : Text} (h : Lexeme kind x r) (hr : Tamer r r')
    (hfraction : kind = .number → fractionLength r = 0 → fractionLength r' = 0)
    (hdash : x = ['-'] → opensLineComment '-' r' = true → opensLineComment '-' r = true) :
    Lexeme kind x r' := by
  obtain @⟨c, x, _, hgap, hread⟩ := h
  have hsingle : c = '-' ∨ c = '/' → x = [] := fun hc =>
    List.eq_nil_of_length_eq_zero (lexeme?_single hc hread)
  constructor
  · obtain ⟨hblank, hline, hblock⟩ := gapLength_eq_zero_iff.1 hgap
    refine gapLength_eq_zero_iff.2 ⟨hblank, Bool.eq_false_iff.2 fun hopens => ?_, ?_⟩
    · rcases opensLineComment_iff.1 hopens with rfl | ⟨rfl, -⟩
      · cases hline
      · obtain rfl := hsingle (.inl rfl)
        rw [List.nil_append] at hopens hline
        exact Bool.false_ne_true (hline ▸ hdash rfl hopens)
    · rintro rfl hstar
      obtain rfl := hsingle (.inr rfl)
      rcases hr.head _ hstar with hsame | hneutral
      · exact hblock rfl hsame
      · cases hneutral
  · unfold lexeme? at hread ⊢
    cases hq : Quote.ofMark? c with
    | some q =>
        simp only [hq, Option.map_eq_some_iff, Prod.mk.injEq] at hread ⊢
        obtain ⟨n, hn, hkind, rfl⟩ := hread
        exact ⟨_, quotedLength?_change hr.head_ne_mark hn, hkind, rfl⟩
    | none =>
        simp only [hq] at hread ⊢
        by_cases hpart : isNamePart c = true
        · rw [if_pos hpart] at hread ⊢
          rw [wordLexeme_change hr hfraction (Option.some.inj hread)]
        · rw [if_neg hpart] at hread ⊢
          cases hfind : operators.find? (·.isPrefixOf (c :: (x ++ r))) with
          | some op =>
              simp only [hfind, Option.some.injEq, Prod.mk.injEq] at hread
              rw [(operator_change hr hfind hread.2).1]
              simp [hread]
          | none =>
              simp only [hfind, Option.some.injEq, Prod.mk.injEq] at hread
              obtain ⟨hkind, hlen⟩ := hread
              obtain rfl := List.eq_nil_of_length_eq_zero hlen.symm
              rw [List.nil_append] at hfind ⊢
              simp [punctuation_change hr hfind, hkind]

theorem prefix_of_not_mem {op a s : Text} {c : Char} (h : op <+: a ++ c :: s) (hc : c ∉ op) :
    op <+: a := by
  rcases List.prefix_or_prefix_of_prefix h (List.prefix_append a (c :: s)) with hop | hop
  · exact hop
  · obtain ⟨z, rfl⟩ := hop
    have hz : z <+: c :: s := (List.prefix_append_right_inj a).1 h
    cases z with
    | nil => simp
    | cons d z =>
        obtain ⟨rfl, -⟩ := List.cons_prefix_cons.1 hz
        exact absurd (by simp) hc

theorem fractionLength_cons {c : Char} (h : c ≠ '.') (s : Text) : fractionLength (c :: s) = 0 := by
  simp [fractionLength, h]

theorem opensLineComment_cons {c : Char} (h : c ≠ '-') (s : Text) :
    opensLineComment '-' (c :: s) = false := by
  simp [opensLineComment, h]

theorem Tamer.of_neutral {c : Char} (h : isNeutral c = true) (r s : Text) : Tamer r (c :: s) where
  head d hd := by
    obtain rfl : c = d := by simpa using hd
    exact .inr h
  operator d y op hop hprefix :=
    (prefix_of_not_mem hprefix (not_mem_operator_of_isNeutral h op hop)).trans
      (List.prefix_append _ _)

theorem Calmer.of_neutral {c : Char} (h : isNeutral c = true) (hdot : c ≠ '.') (r s : Text) :
    Calmer r (c :: s) where
  toTamer := .of_neutral h r s
  fraction _ := fractionLength_cons hdot s
  dash hopens := by
    have hc : c ≠ '-' := by
      rintro rfl
      cases h
    rw [opensLineComment_cons hc] at hopens
    cases hopens

theorem Safe.of_parenthesis {c : Char} (h : c = '(' ∨ c = ')') (r s : Text) : Safe r (c :: s) where
  toCalmer := by
    apply Calmer.of_neutral
    · rcases h with rfl | rfl <;> rfl
    · rcases h with rfl | rfl <;> decide
  dashes hopens := by
    have hc : (isBlank c || isControl c) = false := by rcases h with rfl | rfl <;> decide
    have hblank : (isBlank c || isControl c) = true := hopens
    rw [hc] at hblank
    cases hblank

theorem Calmer.nil (r : Text) : Calmer r [] where
  head c hc := by cases hc
  operator c y op _ hprefix := by
    rw [List.append_nil] at hprefix
    exact hprefix.trans (List.prefix_append _ _)
  fraction _ := rfl
  dash hopens := by cases hopens

theorem Tamer.push {r r' : Text} (h : Tamer r r') (c : Char) : Tamer (c :: r) (c :: r') where
  head d hd := .inl hd
  operator d y op hop hprefix := by
    have hlonger := h.operator d (y ++ [c]) op hop (by simpa using hprefix)
    simpa using hlonger

theorem Tamer.cons {r r' : Text} (h : Tamer r r') {c : Char}
    (hdash : c = '-' → opensLineComment '-' ('-' :: r') = true →
      opensLineComment '-' ('-' :: r) = true) : Safe (c :: r) (c :: r') where
  toTamer := h.push c
  fraction hzero := by
    by_cases hc : c = '.'
    · subst hc
      rcases fractionLength_eq_zero_or (s := '.' :: r') with hzero' | ⟨d, t, hr', hd, -⟩
      · exact hzero'
      · obtain rfl : r' = d :: t := by simpa using hr'
        rcases h.head d rfl with hsame | hneutral
        · cases r with
          | nil => cases hsame
          | cons e r =>
              obtain rfl : e = d := by simpa using hsame
              simp [fractionLength, hd] at hzero
        · exact absurd hd (by simp [isDigit_of_isNeutral hneutral])
    · exact fractionLength_cons hc r'
  dash hopens := by
    by_cases hc : c = '-'
    · subst hc
      exact hdash rfl hopens
    · exact absurd hopens (by simp [opensLineComment_cons hc])
  dashes hopens := hopens

namespace Safe

variable {r r' : Text}

theorem refl (r : Text) : Safe r r where
  head _ h := .inl h
  operator _ _ _ _ h := h
  fraction h := h
  dash h := h
  dashes h := h

theorem cons (h : Safe r r') (c : Char) : Safe (c :: r) (c :: r') :=
  h.toTamer.cons fun _ => h.dashes

theorem append (h : Safe r r') (s : Text) : Safe (s ++ r) (s ++ r') := by
  induction s with
  | nil => exact h
  | cons c s ih => exact ih.cons c

theorem cons_cons (c d : Char) (r r' : Text) : Safe (c :: d :: r) (c :: d :: r') where
  head _ h := .inl h
  operator e y op hop hprefix := by
    have hshared (t : Text) : e :: y ++ [c, d] <+: e :: y ++ c :: d :: t := ⟨t, by simp⟩
    have hlen : op.length ≤ (e :: y ++ [c, d]).length := by
      have := length_le_of_mem_operators op hop
      simp only [List.length_append, List.length_cons, List.length_nil]
      omega
    exact (List.prefix_of_prefix_length_le hprefix (hshared r') hlen).trans (hshared r)
  fraction hzero := by
    rcases fractionLength_eq_zero_or (s := c :: d :: r') with hzero' | ⟨e, t, hr', he, -⟩
    · exact hzero'
    · obtain ⟨rfl, rfl, rfl⟩ : c = '.' ∧ d = e ∧ r' = t := by simpa using hr'
      simp [fractionLength, he] at hzero
  dash hopens := by
    by_cases hc : c = '-'
    · subst hc
      exact hopens
    · exact absurd hopens (by simp [opensLineComment_cons hc])
  dashes hopens := hopens

end Safe

theorem Tamer.append {r r' : Text} (h : Tamer r r') {s : Text} (hs : s ≠ []) (hdash : s ≠ ['-']) :
    Safe (s ++ r) (s ++ r') := by
  match s with
  | [] => exact absurd rfl hs
  | [c] => exact h.cons fun hc => absurd (by rw [hc]) hdash
  | c :: d :: s => exact .cons_cons c d _ _

end SoftDelete
