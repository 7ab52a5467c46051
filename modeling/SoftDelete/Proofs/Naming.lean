import SoftDelete.Proofs.Join.Layout
import SoftDelete.Proofs.Join.Walk
import SoftDelete.Proofs.Sql.Ending

namespace SoftDelete

def Quote.undoubled (q : Quote) : Text → Text
  | [] => []
  | [c] => [c]
  | c :: d :: s =>
      if c = q.mark ∧ d = q.mark then c :: q.undoubled s else c :: q.undoubled (d :: s)

def Token.denoted (t : Token) : Text :=
  match t.kind with
  | .quoted q => q.undoubled t.content
  | _ => t.text

def Text.unmarked (s : Text) : Text :=
  s.filter fun c => (Quote.ofMark? c).isNone

namespace Text

theorem unmarked_append (s t : Text) : unmarked (s ++ t) = unmarked s ++ unmarked t :=
  List.filter_append s t

theorem unmarked_mark (q : Quote) (s : Text) : unmarked (q.mark :: s) = unmarked s := by
  simp [unmarked]

theorem unmarked_eq_self {s : Text} (h : ∀ c ∈ s, Quote.ofMark? c = none) : unmarked s = s := by
  refine List.filter_eq_self.2 fun c hc => ?_
  rw [h c hc]
  rfl

theorem ofMark?_of_mem_unmarked {s : Text} {c : Char} (h : c ∈ unmarked s) :
    Quote.ofMark? c = none := by
  simpa using (List.mem_filter.1 h).2

theorem joined_points (first second : Text) (later : List Text) :
    joined "." (first :: second :: later) = first ++ '.' :: joined "." (second :: later) := by
  simp [joined, List.intercalate]

theorem unmarked_joined (parts : List Text) :
    unmarked (joined "." parts) = joined "." (parts.map unmarked) := by
  induction parts with
  | nil => rfl
  | cons part parts ih =>
      cases parts with
      | nil => simp [joined]
      | cons next parts =>
          have hdot : unmarked ('.' :: joined "." (next :: parts)) =
              '.' :: unmarked (joined "." (next :: parts)) := by
            simp [unmarked, Quote.ofMark?]
          rw [joined_points, unmarked_append, hdot, ih]
          exact (joined_points ..).symm

end Text

theorem Quote.unmarked_undoubled (q : Quote) (s : Text) :
    Text.unmarked (q.undoubled s) = Text.unmarked s := by
  fun_induction q.undoubled s with
  | case1 | case2 => rfl
  | case3 c d s h ih =>
      obtain ⟨rfl, rfl⟩ := h
      simp only [Text.unmarked_mark, ih]
  | case4 c d s h ih => simp only [Text.unmarked, List.filter_cons] at ih ⊢; rw [ih]

theorem Token.unmarked_denoted {t : Token} {r : Text} (h : t.StandsBefore r) :
    Text.unmarked t.denoted = Text.unmarked t.text := by
  obtain ⟨gap, kind, text⟩ := t
  unfold denoted
  split
  · rename_i q hkind
    obtain rfl : kind = .quoted q := hkind
    obtain ⟨body, rfl⟩ := h.lexeme.quoted_text
    have hcontent : Token.content ⟨gap, .quoted q, q.mark :: (body ++ [q.mark])⟩ = body := by
      simp [content]
    rw [hcontent, q.unmarked_undoubled, Text.unmarked_mark, Text.unmarked_append]
    simp [Text.unmarked]
  · rfl

def denotedName (parts : List Token) : Text :=
  Text.joined "." (parts.map Token.denoted)

def writtenName (parts : List Token) : Text :=
  Text.joined "." (parts.map Token.text)

theorem unmarked_writtenName {parts : List Token} (h : ∀ t ∈ parts, ∃ r, t.StandsBefore r) :
    Text.unmarked (writtenName parts) = Text.unmarked (denotedName parts) := by
  rw [writtenName, denotedName, Text.unmarked_joined, Text.unmarked_joined, List.map_map,
    List.map_map]
  congr 1
  refine List.map_congr_left fun t ht => ?_
  obtain ⟨r, hstands⟩ := h t ht
  exact (Token.unmarked_denoted hstands).symm

theorem References.exists_parts {room maxJoins start : Nat} {items : List Item}
    {after : Option Item} {r : References} {table : Reference} {name : Text}
    (hread : References.parse room maxJoins start items after = .ok r) (htable : table ∈ r.tables)
    (hname : table.name = some name) :
    ∃ parts : List Token, parts ≠ [] ∧ (∀ t ∈ parts, .token t ∈ items ∧ t.canName = true) ∧
      name = writtenName parts := by
  obtain ⟨head, rest, rfl, hspans⟩ := parse_spans hread
  have hnamed : ∀ {used : List Item} {n : Nat}, table.Spans n used → NamedIn used name := by
    intro used n h
    obtain ⟨front, tail, rfl, hfront, -⟩ := h.derives
    rw [hname] at hfront
    exact hfront.namedIn.mono fun i hi => List.mem_append_left _ hi
  rcases List.mem_cons.1 htable with rfl | htable
  · exact (hnamed hspans.first).mono fun i hi => List.mem_append_left _ hi
  · obtain ⟨j, hj, rfl⟩ := List.mem_map.1 htable
    obtain ⟨front, used, back, n, rfl, hused⟩ := hspans.joins.exists_table hj
    exact (hnamed hused).mono fun i hi => by simp [hi]

namespace Catalog

variable {catalog : Catalog} {sql : Text} {l : Lexed} {parts : List Token}

theorem contains_written (hlex : lex sql = .ok l) (hparts : ∀ t ∈ parts, t ∈ l.tokens) :
    catalog.contains (writtenName parts) = true ↔
      Text.unmarked (denotedName parts) ∈ catalog.names := by
  have hstands : ∀ t ∈ parts, ∃ r, t.StandsBefore r := fun t ht =>
    (readable_of_lex hlex).1.stands (hparts t ht)
  rw [contains_iff, ← unmarked_writtenName hstands]
  rfl

theorem contains_name_iff (hlex : lex sql = .ok l) {room maxJoins start : Nat} {items : List Item}
    (hitems : ∀ t, .token t ∈ items → t ∈ l.tokens) {after : Option Item} {r : References}
    {table : Reference} {name : Text}
    (hread : References.parse room maxJoins start items after = .ok r) (htable : table ∈ r.tables)
    (hname : table.name = some name) :
    ∃ parts : List Token, parts ≠ [] ∧ (∀ t ∈ parts, t ∈ l.tokens ∧ t.canName = true) ∧
      name = writtenName parts ∧
      (catalog.contains name = true ↔ Text.unmarked (denotedName parts) ∈ catalog.names) ∧
      ((∀ c ∈ denotedName parts, Quote.ofMark? c = none) →
        (catalog.contains name = true ↔ denotedName parts ∈ catalog.names)) := by
  obtain ⟨parts, hne, hparts, rfl⟩ := References.exists_parts hread htable hname
  have hmem : ∀ t ∈ parts, t ∈ l.tokens := fun t ht => hitems t (hparts t ht).1
  have hcontains : catalog.contains (writtenName parts) = true ↔
      Text.unmarked (denotedName parts) ∈ catalog.names := contains_written hlex hmem
  refine ⟨parts, hne, fun t ht => ⟨hmem t ht, (hparts t ht).2⟩, rfl, hcontains, fun hmarks => ?_⟩
  rwa [Text.unmarked_eq_self hmarks] at hcontains

theorem contains_of_marked {listed : Text} {c : Char} (hc : c ∈ listed)
    (hmark : Quote.ofMark? c ≠ none) (names : List Text) (name : Text) :
    contains ⟨listed :: names⟩ name = contains ⟨names⟩ name := by
  have hne : Text.unmarked name ≠ listed := by
    rintro rfl
    exact hmark (Text.ofMark?_of_mem_unmarked hc)
  rw [Bool.eq_iff_iff, contains_iff, contains_iff]
  refine ⟨fun h => ?_, List.mem_cons_of_mem _⟩
  exact (List.mem_cons.1 h).resolve_left hne

example :
    contains ⟨["hist\"a".toList, "plain".toList]⟩ ("`hist\"a`".toList) = false ∧
      contains ⟨["hist\"a".toList, "plain".toList]⟩ ("`pl\"ain`".toList) = true := by
  decide

end Catalog

end SoftDelete
