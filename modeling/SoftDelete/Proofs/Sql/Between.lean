import SoftDelete.Proofs.Select.Outermost
import SoftDelete.Proofs.Sql.Partition

namespace SoftDelete

theorem spansFrom_append (offset : Nat) (ts us : List Token) :
    spansFrom offset (ts ++ us) =
      spansFrom offset ts ++ spansFrom (offset + Text.byteSize (sourceOf ts)) us := by
  induction ts generalizing offset with
  | nil => rfl
  | cons t ts ih => simp [spansFrom, ih, Token.source, Nat.add_assoc]

@[simp] theorem length_spansFrom (offset : Nat) (ts : List Token) :
    (spansFrom offset ts).length = ts.length := by
  induction ts generalizing offset with
  | nil => rfl
  | cons t ts ih => simp [spansFrom, ih]

def shifted (distance : Nat) (span : Nat × Nat) : Nat × Nat :=
  (distance + span.1, distance + span.2)

theorem map_shifted_spansFrom (distance offset : Nat) (ts : List Token) :
    (spansFrom offset ts).map (shifted distance) = spansFrom (distance + offset) ts := by
  induction ts generalizing offset with
  | nil => rfl
  | cons t ts ih => simp [spansFrom, shifted, ih, Nat.add_assoc]

theorem exists_spans_between (front inner rest : List Token) (opening closing : Token)
    (tail : Text) :
    let ts := front ++ opening :: (inner ++ closing :: rest)
    ∃ a b, (spansFrom 0 ts)[front.length]? = some a ∧
      (spansFrom 0 ts)[front.length + (inner.length + 1)]? = some b ∧
      (sourceOf ts ++ tail).slice a.2 b.1 = sourceOf inner ++ closing.gap ∧
      (spansFrom 0 ts).drop (front.length + 1) = spansFrom a.2 (inner ++ closing :: rest) := by
  intro ts
  let start := Text.byteSize (sourceOf front ++ opening.source)
  let stop := start + Text.byteSize (sourceOf inner ++ closing.gap)
  have hspans : spansFrom 0 ts = spansFrom 0 front ++
      (Text.byteSize (sourceOf front ++ opening.gap), start) ::
        spansFrom start (inner ++ closing :: rest) := by
    simp [ts, start, spansFrom_append, spansFrom, Token.source, Nat.add_assoc]
  have hinner : spansFrom start (inner ++ closing :: rest) = spansFrom start inner ++
      (stop, stop + Text.byteSize closing.text) ::
        spansFrom (stop + Text.byteSize closing.text) rest := by
    simp [stop, spansFrom_append, spansFrom, Nat.add_assoc]
  have hsource : sourceOf ts ++ tail = sourceOf front ++ opening.source ++
      (sourceOf inner ++ closing.gap ++ (closing.text ++ (sourceOf rest ++ tail))) := by
    simp [ts, Token.source]
  refine ⟨(Text.byteSize (sourceOf front ++ opening.gap), start),
    (stop, stop + Text.byteSize closing.text), ?_, ?_, ?_, ?_⟩
  · rw [hspans, List.getElem?_append_right (by simp)]
    simp
  · rw [hspans, hinner, List.getElem?_append_right (by simp)]
    simp
  · rw [hsource]
    exact Text.slice_append _ _ _
  · rw [hspans, ← length_spansFrom 0 front]
    simp [List.drop_append]

/-- What stands between two tokens, from the end of the span `a` to the beginning of the span `b`, is
cut into the tokens that stand between them in the whole, with their spans. Two dashes with nothing
between and behind them open a comment at the end of the part, and are all that is missing then. -/
theorem Lexed.ofText_between {sql : Text} {l : Lexed} {front inner rest : List Token}
    {opening closing : Token} (h : Lexed.ofText sql = .ok l)
    (hts : l.tokens = front ++ opening :: (inner ++ closing :: rest)) :
    ∃ a b m, (spansFrom 0 l.tokens)[front.length]? = some a ∧
      (spansFrom 0 l.tokens)[front.length + (inner.length + 1)]? = some b ∧
      Lexed.ofText (sql.slice a.2 b.1) = .ok m ∧
      (spansFrom 0 m.tokens).map (shifted a.2) =
        ((spansFrom 0 l.tokens).drop (front.length + 1)).take m.tokens.length ∧
      (m.tokens = inner ∧ ¬ EndsInDashes inner closing.gap ∨
        ∃ t u, inner = m.tokens ++ [t, u] ∧ t.text = ['-'] ∧ u.text = ['-'] ∧ u.gap = [] ∧
          closing.gap = []) := by
  obtain ⟨hread, -⟩ := readable_of_lex (lex_of_ofText h)
  obtain rfl := Lexed.source_of_ofText h
  -- The tokens between the two are read with the gap of the closing one behind them.
  rw [hts] at hread
  obtain ⟨-, -, hinside⟩ := readable_append.1 hread
  obtain ⟨hinner, hclosing, -⟩ := readable_append.1 hinside
  rw [sourceOf_cons, Token.source, List.append_assoc, List.append_assoc] at hinner
  obtain ⟨read, dashes, hcut, hlex, hdashes⟩ := lex_inner_cases hinner hclosing.gap
  obtain ⟨a, b, ha, hb, hslice, hspans⟩ :=
    exists_spans_between front inner rest opening closing l.tail
  rw [← hts] at ha hb hslice hspans
  refine ⟨a, b, ⟨read, sourceOf dashes ++ closing.gap⟩, ha, hb, ?_, ?_, ?_⟩
  · rw [Lexed.source, hslice]
    exact ofText_of_lex hlex
  · rw [hspans, map_shifted_spansFrom, hcut]
    simp [spansFrom_append]
  · rcases hdashes with ⟨rfl, hend⟩ | ⟨t, u, rfl, hpair⟩
    · exact .inl ⟨by simp [hcut], hend⟩
    · exact .inr ⟨t, u, hcut, hpair⟩

theorem Lexed.ofText_between_parentheses :
    let sql : Text := "SELECT a FROM t WHERE (x IN (SELECT 1-- 2\n - 3. /* ) */)) --".toList
    let l := match lex sql with
      | .ok l => l
      | .error _ => ⟨[], []⟩
    let opening : Token := ⟨[' '], .lparen, ['(']⟩
    let inner := (l.tokens.drop 9).take 5
    let closing : Token := ⟨" /* ) */".toList, .rparen, [')']⟩
    Lexed.ofText sql = .ok l ∧
      l.tokens = l.tokens.take 8 ++ opening :: (inner ++ closing :: l.tokens.drop 15) ∧
      ∃ a b m, (spansFrom 0 l.tokens)[(l.tokens.take 8).length]? = some a ∧
        (spansFrom 0 l.tokens)[(l.tokens.take 8).length + (inner.length + 1)]? = some b ∧
        Lexed.ofText (sql.slice a.2 b.1) = .ok m ∧
        (spansFrom 0 m.tokens).map (shifted a.2) =
          ((spansFrom 0 l.tokens).drop ((l.tokens.take 8).length + 1)).take m.tokens.length ∧
        (m.tokens = inner ∧ ¬ EndsInDashes inner closing.gap ∨
          ∃ t u, inner = m.tokens ++ [t, u] ∧ t.text = ['-'] ∧ u.text = ['-'] ∧ u.gap = [] ∧
            closing.gap = []) := by
  intro sql l opening inner closing
  have hl : Lexed.ofText sql = .ok l := by decide +kernel
  have hts : l.tokens = l.tokens.take 8 ++ opening :: (inner ++ closing :: l.tokens.drop 15) := by
    decide +kernel
  exact ⟨hl, hts, Lexed.ofText_between hl hts⟩

/-- The text up to the closing parenthesis ends in a comment, which is none where the parenthesis
follows. -/
theorem Lexed.ofText_between_loses_dashes :
    let sql : Text := "SELECT * FROM (SELECT * FROM hist_a WHERE x = --) t".toList
    let l := match lex sql with
      | .ok l => l
      | .error _ => ⟨[], []⟩
    let opening : Token := ⟨[' '], .lparen, ['(']⟩
    let inner := (l.tokens.drop 4).take 9
    let closing : Token := ⟨[], .rparen, [')']⟩
    Lexed.ofText sql = .ok l ∧
      l.tokens = l.tokens.take 3 ++ opening :: (inner ++ closing :: l.tokens.drop 14) ∧
      Matched opening inner closing ∧ inner.head?.any (·.spells "SELECT") = true ∧
      (spansFrom 0 l.tokens)[3]? = some (14, 15) ∧ (spansFrom 0 l.tokens)[13]? = some (48, 49) ∧
      Lexed.ofText (sql.slice 15 48) = .ok ⟨inner.take 7, " --".toList⟩ ∧
      inner.take 7 ≠ inner := by
  intro sql l opening inner closing
  have henclosed : enclosed? Token.kind? 0 (inner ++ [closing]) = some (inner, closing, []) := by
    decide +kernel
  have hmatched := ((enclosed?_eq_some_iff (t := opening) rfl).1 henclosed).2
  have hread : Lexed.ofText sql = .ok l ∧
      l.tokens = l.tokens.take 3 ++ opening :: (inner ++ closing :: l.tokens.drop 14) ∧
      inner.head?.any (·.spells "SELECT") = true := by decide +kernel
  obtain ⟨hl, hts, hselect⟩ := hread
  exact ⟨hl, hts, hmatched, hselect, by decide +kernel, by decide +kernel, by decide +kernel,
    by decide +kernel⟩

end SoftDelete
