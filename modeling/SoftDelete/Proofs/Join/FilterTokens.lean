import SoftDelete.Join.Filter
import SoftDelete.Proofs.Sql.Readable

namespace SoftDelete

namespace Token

def bare (t : Token) : Token :=
  ⟨[], t.kind, t.text⟩

def spaced (word : String) : Token :=
  ⟨[' '], .word, word.toList⟩

def dot : Token :=
  ⟨[], .dot, ['.']⟩

end Token

def tokensOf (s : Text) : List Token :=
  match lex s with
  | .ok l => l.tokens.map Token.bare
  | .error _ => []

/-- One word, of which no comment reaches past the end. -/
def IsFlagWord (column : Text) : Prop :=
  ∃ w tail, lex column = .ok ⟨[w], tail⟩ ∧ w.kind = .word ∧ ClosedGap tail

def dotted : List Token → List Token
  | [] => []
  | [t] => [t.bare]
  | t :: ts => t.bare :: Token.dot :: dotted ts

structure Names (ts : List Token) : Prop where
  nonempty : ts ≠ []
  canName : ∀ t ∈ ts, t.canName = true
  read : ∀ t ∈ ts, ∃ r, Lexeme t.kind t.text r

def regap (gap : Text) : List Token → List Token
  | [] => []
  | t :: ts => ⟨gap, t.kind, t.text⟩ :: ts

theorem sourceOf_dotted (ts : List Token) :
    sourceOf (dotted ts) = Text.joined "." (ts.map Token.text) := by
  fun_induction dotted ts with
  | case1 => rfl
  | case2 t => simp [Token.source, Token.bare, Text.joined]
  | case3 t ts hne ih =>
      cases ts with
      | nil => exact absurd rfl hne
      | cons u us =>
          simp only [sourceOf_cons, ih, Text.joined, List.map_cons]
          simp [Token.source, Token.bare, Token.dot, List.intercalate]

namespace Lexeme

theorem before_neutral {kind : Token.Kind} {x r : Text} (h : Lexeme kind x r) {c : Char}
    (hc : isNeutral c = true) (hdot : c ≠ '.') (s : Text) : Lexeme kind x (c :: s) :=
  h.calmer (.of_neutral hc hdot r s)

theorem dot (r : Text) : Lexeme .dot ['.'] r := by
  have hpart : isNamePart '.' = false := by decide
  refine .intro (gapLength_eq_zero_iff.2 ⟨by decide, rfl, by simp⟩) ?_
  simp [lexeme?, Quote.ofMark?, hpart, operators, punctuation]

theorem before_dot {t : Token} {r : Text} (h : Lexeme t.kind t.text r) (ht : t.canName = true)
    (s : Text) : Lexeme t.kind t.text ('.' :: s) := by
  refine h.change (.of_neutral rfl r s) (fun hkind => ?_) fun htext => ?_
  · simp [Token.canName, hkind] at ht
  · have hkind := kind_of_dash (htext ▸ h)
    simp [Token.canName, hkind] at ht

end Lexeme

theorem readable_dotted {ts : List Token} {r : Text} (hname : ∀ t ∈ ts, t.canName = true)
    (hread : ∀ t ∈ ts, ∃ r, Lexeme t.kind t.text r) (hr : ∀ t ∈ ts, Lexeme t.kind t.text r) :
    Readable (dotted ts) r := by
  fun_induction dotted ts with
  | case1 => trivial
  | case2 t => exact ⟨⟨closedGap_nil, hr t (by simp)⟩, trivial⟩
  | case3 t ts hne ih =>
      have hlater := ih (fun u hu => hname u (by simp [hu])) (fun u hu => hread u (by simp [hu]))
        (fun u hu => hr u (by simp [hu]))
      obtain ⟨s, hs⟩ := hread t (by simp)
      exact ⟨⟨closedGap_nil, hs.before_dot (hname t (by simp)) _⟩, ⟨closedGap_nil, .dot _⟩, hlater⟩

theorem exists_dotted {ts : List Token} (h : ts ≠ []) :
    ∃ u us, dotted ts = u :: us ∧ u.gap = [] := by
  fun_induction dotted ts with
  | case1 => exact absurd rfl h
  | case2 t => exact ⟨_, _, rfl, rfl⟩
  | case3 t ts _ _ => exact ⟨_, _, rfl, rfl⟩

theorem readable_regap {g : Text} (hg : ClosedGap g) {ts : List Token} {r : Text}
    (h : Readable ts r) : Readable (regap g ts) r := by
  cases ts with
  | nil => trivial
  | cons t ts => exact ⟨⟨hg, h.1.lexeme⟩, h.2⟩

theorem sourceOf_regap {g : Text} {t : Token} {ts : List Token} :
    sourceOf (regap g (t :: ts)) = g ++ (t.text ++ sourceOf ts) := by
  simp [regap, Token.source]

theorem outputOf_tokens (ts : List Token) :
    outputOf (ts.map Item.token) = sourceOf (regap [] ts) := by
  cases ts with
  | nil => rfl
  | cons t ts => rw [sourceOf_regap, List.map_cons, outputOf, List.flatMap_map]; rfl

theorem map_bare_regap (g : Text) (ts : List Token) :
    (regap g ts).map Token.bare = ts.map Token.bare := by
  cases ts <;> rfl

theorem regap_append {ts : List Token} (h : ts ≠ []) (g : Text) (us : List Token) :
    regap g (ts ++ us) = regap g ts ++ us := by
  cases ts with
  | nil => exact absurd rfl h
  | cons t ts => rfl

def fieldTokens (g : Text) (names : List Token) (w : Token) : List Token :=
  regap g (dotted names) ++ [Token.dot, w]

def filterTokens (names : List Token) (w : Token) (tail : Text) : List Token :=
  ⟨[' '], .lparen, ['(']⟩ :: (fieldTokens [] names w ++
    ([⟨tail ++ [' '], .operator, ['=']⟩, ⟨[' '], .number, ['0']⟩, Token.spaced "OR"] ++
      (fieldTokens [' '] names w ++
        [⟨tail ++ [' '], .word, "IS".toList⟩, Token.spaced "NULL", ⟨[], .rparen, [')']⟩])))

section Filter

variable {names : List Token} {w : Token} {tail : Text}

theorem sourceOf_fieldTokens (hne : names ≠ []) (g : Text) :
    sourceOf (fieldTokens g names w) =
      g ++ (Text.joined "." (names.map Token.text) ++ '.' :: w.source) := by
  obtain ⟨t, ts, hts, hgap⟩ := exists_dotted hne
  rw [← sourceOf_dotted, fieldTokens, hts, sourceOf_append, sourceOf_regap]
  simp [Token.source, Token.dot, hgap]

theorem readable_fieldTokens (h : Names names) (hw : w.StandsBefore tail) (htail : ClosedGap tail)
    {g : Text} (hg : ClosedGap g) (s : Text) :
    Readable (fieldTokens g names w) (tail ++ ' ' :: s) := by
  have hstands : w.StandsBefore (tail ++ ' ' :: s) := by
    refine ⟨hw.gap, hw.lexeme.calmer ?_⟩
    by_cases hne : tail = []
    · subst hne
      exact .of_neutral rfl (by decide) [] s
    · simpa using (Safe.of_gap htail hne [] (' ' :: s)).toCalmer
  refine readable_append.2 ⟨readable_regap hg ?_, ⟨closedGap_nil, .dot _⟩, ?_, trivial⟩
  · refine readable_dotted h.canName h.read fun t ht => ?_
    obtain ⟨r, hr⟩ := h.read t ht
    exact hr.before_dot (h.canName t ht) _
  · simpa using hstands

theorem sourceOf_filterTokens (hne : names ≠ []) :
    sourceOf (filterTokens names w tail) =
      ' ' :: filterCondition (w.source ++ tail) (Text.joined "." (names.map Token.text)) := by
  simp [filterTokens, sourceOf_fieldTokens hne, filterCondition, Token.source, Token.spaced]

theorem readable_filterTokens (h : Names names) (hw : w.StandsBefore tail) (htail : ClosedGap tail)
    (r : Text) : Readable (filterTokens names w tail) r := by
  have hspace : ClosedGap [' '] := closedGap_blank (by decide)
  have htoken : ∀ {gap kind text} (s : Text), ClosedGap gap → Lexeme kind text [] →
      (⟨gap, kind, text⟩ : Token).StandsBefore (' ' :: s) := fun s hgap hread =>
    ⟨hgap, hread.before_neutral rfl (by decide) s⟩
  have hend : Readable [⟨tail ++ [' '], .word, "IS".toList⟩, Token.spaced "NULL",
      ⟨[], .rparen, [')']⟩] r := by
    refine ⟨htoken _ (htail.append hspace) ?_, ⟨hspace, ?_⟩, ⟨closedGap_nil, .rparen r⟩, trivial⟩
    · exact .intro (by decide) (by decide)
    · have hnull : Lexeme .word "NULL".toList [] := .intro (by decide) (by decide)
      exact hnull.before_neutral (c := ')') rfl (by decide) r
  have hmiddle : ∀ s, Readable [⟨tail ++ [' '], .operator, ['=']⟩, ⟨[' '], .number, ['0']⟩,
      Token.spaced "OR"] (' ' :: s) := by
    intro s
    refine ⟨htoken _ (htail.append hspace) ?_, htoken _ hspace ?_, htoken s hspace ?_, trivial⟩
    · exact .intro (by decide) (by decide)
    · exact .intro (by decide) (by decide)
    · exact .intro (by decide) (by decide)
  refine ⟨⟨hspace, .lparen _⟩, readable_append.2 ⟨?_, readable_append.2 ⟨?_,
    readable_append.2 ⟨?_, hend⟩⟩⟩⟩
  · simpa [Token.source] using readable_fieldTokens h hw htail closedGap_nil _
  · obtain ⟨u, us, hu, hgap⟩ := exists_dotted h.nonempty
    rw [fieldTokens, hu]
    simpa [regap, Token.source] using hmiddle _
  · simpa [Token.source] using readable_fieldTokens h hw htail hspace _

theorem spaced_filterTokens (h : Names names) (hw : w.StandsBefore tail)
    (htail : ClosedGap tail) : Spaced (filterTokens names w tail) where
  solid := readable_filterTokens h hw htail
  space := ⟨_, sourceOf_filterTokens h.nonempty⟩

theorem tokensOf_filterCondition (h : Names names) (hw : w.StandsBefore tail)
    (htail : ClosedGap tail) :
    tokensOf (filterCondition (w.source ++ tail) (Text.joined "." (names.map Token.text))) =
      (filterTokens names w tail).map Token.bare := by
  have hsource : sourceOf (regap [] (filterTokens names w tail)) =
      filterCondition (w.source ++ tail) (Text.joined "." (names.map Token.text)) := by
    have hspaced := @sourceOf_filterTokens names w tail h.nonempty
    rw [filterTokens, sourceOf_cons] at hspaced
    rw [filterTokens, sourceOf_regap]
    simpa [Token.source] using hspaced
  have hread := readable_regap closedGap_nil (readable_filterTokens h hw htail [])
  have hlex := lex_of_readable hread rfl
  rw [List.append_nil, hsource] at hlex
  simp only [tokensOf, hlex, map_bare_regap]

end Filter

def IsTarget (target : Text) : Prop :=
  ∃ names, Names names ∧ target = Text.joined "." (names.map Token.text)

inductive IsFilter (column : Text) : Text → List Token → Prop where
  | intro {names : List Token} {w : Token} {tail : Text} (hnames : Names names)
      (hlex : lex column = .ok ⟨[w], tail⟩) (htail : ClosedGap tail) :
      IsFilter column (Text.joined "." (names.map Token.text)) (filterTokens names w tail)

namespace IsFilter

variable {column target : Text} {ts : List Token}

theorem exists_of (hcolumn : IsFlagWord column) (htarget : IsTarget target) :
    ∃ ts, IsFilter column target ts := by
  obtain ⟨w, tail, hlex, -, htail⟩ := hcolumn
  obtain ⟨names, hnames, rfl⟩ := htarget
  exact ⟨_, .intro hnames hlex htail⟩

theorem spaced (h : IsFilter column target ts) : Spaced ts := by
  obtain ⟨hnames, hlex, htail⟩ := h
  exact spaced_filterTokens hnames (by simpa [Readable] using (readable_of_lex hlex).1) htail

theorem source (h : IsFilter column target ts) :
    sourceOf ts = ' ' :: filterCondition column target := by
  obtain @⟨names, w, tail, hnames, hlex, htail⟩ := h
  obtain rfl : w.source ++ tail = column := by simpa [Lexed.source] using source_of_lex hlex
  exact sourceOf_filterTokens hnames.nonempty

theorem bare (h : IsFilter column target ts) :
    ts.map Token.bare = tokensOf (filterCondition column target) := by
  obtain @⟨names, w, tail, hnames, hlex, htail⟩ := h
  have hw : w.StandsBefore tail := by simpa [Readable] using (readable_of_lex hlex).1
  obtain rfl : w.source ++ tail = column := by simpa [Lexed.source] using source_of_lex hlex
  exact (tokensOf_filterCondition hnames hw htail).symm

end IsFilter

theorem exists_filterTokens {column target : Text} (hcolumn : IsFlagWord column)
    (htarget : IsTarget target) :
    ∃ ts, Spaced ts ∧ sourceOf ts = ' ' :: filterCondition column target ∧
      ts.map Token.bare = tokensOf (filterCondition column target) := by
  obtain ⟨ts, hts⟩ := IsFilter.exists_of hcolumn htarget
  exact ⟨ts, hts.spaced, hts.source, hts.bare⟩

end SoftDelete
