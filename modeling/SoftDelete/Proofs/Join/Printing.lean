import SoftDelete.Proofs.Join.Clarity
import SoftDelete.Proofs.Join.FilterTokens
import SoftDelete.Proofs.Join.Soundness
import SoftDelete.Proofs.Sql.Ending

namespace SoftDelete

open Reading

def Quiet (r : Text) : Prop :=
  ∀ s, Calmer s r

theorem Quiet.nil : Quiet [] :=
  Calmer.nil

theorem Quiet.cons {c : Char} (h : isNeutral c = true) (hdot : c ≠ '.') (r : Text) :
    Quiet (c :: r) :=
  fun s => .of_neutral h hdot s r

theorem Quiet.space (r : Text) : Quiet (' ' :: r) :=
  .cons rfl (by decide) r

def Tokenised (items : List Item) : Prop :=
  ∃ ts r, items = ts.map Item.token ∧ Readable ts r

namespace Tokenised

variable {items more : List Item} {i : Item}

theorem append (h : Tokenised (items ++ more)) : Tokenised items ∧ Tokenised more := by
  obtain ⟨ts, r, hts, hread⟩ := h
  obtain ⟨us, vs, rfl, rfl, rfl⟩ := List.map_eq_append_iff.1 hts.symm
  rw [readable_append] at hread
  exact ⟨⟨us, _, rfl, hread.1⟩, ⟨vs, r, rfl, hread.2⟩⟩

theorem head (h : Tokenised (i :: items)) : ∃ t r, i = .token t ∧ Lexeme t.kind t.text r := by
  obtain ⟨ts, r, hts, hread⟩ := h
  obtain ⟨t, us, rfl, rfl, -⟩ := List.map_eq_cons_iff.1 hts.symm
  exact ⟨t, _, rfl, hread.1.lexeme⟩

theorem tail (h : Tokenised (i :: items)) : Tokenised items :=
  (@append [i] items h).2

theorem lexeme (h : Tokenised items) {t : Token} (ht : .token t ∈ items) :
    ∃ r, Lexeme t.kind t.text r := by
  obtain ⟨front, back, rfl⟩ := List.append_of_mem ht
  obtain ⟨u, r, hu, hread⟩ := h.append.2.head
  cases hu
  exact ⟨r, hread⟩

theorem shows (h : Tokenised items) : ∀ i ∈ items, i.ShowsQuote := by
  intro i hi q
  obtain ⟨ts, r, rfl, -⟩ := id h
  obtain ⟨t, -, rfl⟩ := List.mem_map.1 hi
  obtain ⟨s, hread⟩ := h.lexeme hi
  simpa [Item.hasKind, Item.kind?, Item.text] using hread.quoted_iff q

end Tokenised

def printedWords : List String :=
  ["JOIN", "b", "ON", "AND", "OR", "NOT", "IS", "LIKE", "IN", "NULL", "TRUE", "FALSE", "UNKNOWN"]

theorem lexeme_of_printed {word : String} (h : word ∈ printedWords) :
    Lexeme .word word.toList [] := by
  have hlex : ∀ word ∈ printedWords,
      lex word.toList = .ok ⟨[⟨[], .word, word.toList⟩], []⟩ := by decide +kernel
  exact (readable_of_lex (hlex word h)).1.1.lexeme

structure Comparator.Printed (op : Comparator) (ts : List Token) : Prop where
  source : sourceOf ts = ' ' :: op.text
  compares : Compares op (ts.map Item.token)
  readable : ∀ s, Readable ts (' ' :: s)

namespace Comparator

variable {op : Comparator}

theorem printed_operator (hop : ofOperator? op.text = some op)
    (hread : Lexeme .operator op.text []) : op.Printed [⟨[' '], .operator, op.text⟩] where
  source := by simp [Token.source]
  compares := .inl ⟨_, rfl, rfl, hop⟩
  readable s := ⟨⟨closedGap_blank rfl, hread.calmer (Quiet.space s [])⟩, trivial⟩

theorem spelledBy_spaced (words : List String) :
    SpelledBy words (words.map fun word => .token (Token.spaced word)) := by
  induction words with
  | nil => exact ⟨rfl, rfl⟩
  | cons word words ih =>
      have hword : (Token.spaced word).spells word = true := by
        simp [Token.spells, Token.spaced, Text.sameWord_refl]
      exact ⟨Bool.and_eq_true_iff.2 ⟨hword, ih.1⟩, by simp⟩

theorem readable_spaced {words : List String} (h : ∀ word ∈ words, Lexeme .word word.toList [])
    (s : Text) : Readable (words.map Token.spaced) (' ' :: s) := by
  induction words with
  | nil => trivial
  | cons word words ih =>
      refine ⟨⟨closedGap_blank rfl, (h word (by simp)).calmer ?_⟩, ih fun w hw => h w (by simp [hw])⟩
      cases words <;> exact Quiet.space _ []

theorem printed_form {form : List String × Comparator} (h : form ∈ forms) :
    form.2.Printed (form.1.map Token.spaced) := by
  have htexts : ∀ form ∈ forms, sourceOf (form.1.map Token.spaced) = ' ' :: form.2.text := by decide
  have hwords : ∀ form ∈ forms, ∀ word ∈ form.1, word ∈ printedWords := by decide
  refine ⟨htexts form h, .inr ⟨form, h, rfl, ?_⟩,
    readable_spaced fun word hword => lexeme_of_printed (hwords form h word hword)⟩
  rw [List.map_map]
  exact spelledBy_spaced form.1

theorem exists_printed (op : Comparator) : ∃ ts, op.Printed ts := by
  have hforms : (∃ form ∈ forms, form.2 = op) → ∃ ts, op.Printed ts := by
    rintro ⟨form, hform, rfl⟩
    exact ⟨_, printed_form hform⟩
  cases op with
  | eq | notEq | lt | ltEq | gt | gtEq | nullSafeEq =>
      exact ⟨_, printed_operator (by decide) (.intro (by decide) (by decide))⟩
  | like | notLike | is | isNot | inside | notInside => exact hforms (by decide)

end Comparator

namespace Operand

@[simp] theorem text_column (parts : List Text) : (column parts).text = Text.joined "." parts := rfl

@[simp] theorem text_literal (text : Text) : (literal text).text = text := rfl

@[simp] theorem text_call (name args : Text) :
    (call name args).text = name ++ '(' :: (args ++ [')']) := rfl

@[simp] theorem text_list (values : List Operand) :
    (list values).text = '(' :: (listText values ++ [')']) := rfl

theorem listText_cons {values : List Operand} (h : values ≠ []) (value : Operand) :
    listText (value :: values) = value.text ++ (", ".toList ++ listText values) := by
  cases values with
  | nil => exact absurd rfl h
  | cons v vs => rw [listText, List.append_assoc]; simp

end Operand

def ConditionPart.text : ConditionPart → Text
  | .operand value => value.text
  | .operands values => Operand.listText values
  | .term c | .condition c => c.text

structure ConditionPart.Printed (p : ConditionPart) (g : Text) (ts : List Token) : Prop where
  source : sourceOf ts = g ++ p.text
  derives : Derives p (ts.map Item.token)
  readable : ∀ r, Quiet r → Readable ts r

theorem Token.IsFreeName.canName {t : Token} (h : t.IsFreeName) : t.canName = true := by
  rcases h with ⟨q, hkind⟩ | ⟨hkind, -⟩ <;> simp [Token.canName, hkind]

theorem Token.IsFreeName.freeName? {t : Token} (h : t.IsFreeName) (g : Text) :
    (Item.token ⟨g, t.kind, t.text⟩).freeName? = some t.text := by
  rcases h with ⟨q, hkind⟩ | ⟨hkind, hfree⟩
  · simp [Item.freeName?, Item.kind?, Item.text, hkind]
  · simp [Item.freeName?, Item.kind?, Item.text, hkind, hfree]

theorem linked_dotted {ts : List Token} (h : ∀ t ∈ ts, t.IsFreeName) :
    Linked Named (mark? .dot) (ts.map fun t => ((), t.text))
      ((ts.flatMap fun t => [Token.dot, t.bare]).map Item.token) := by
  induction ts with
  | nil => exact .nil
  | cons t ts ih =>
      have hname : Named t.text [.token t.bare] := ⟨_, rfl, (h t (by simp)).freeName? []⟩
      have hdot : mark? .dot (.token Token.dot) = some () := rfl
      exact .cons hdot hname (ih fun u hu => h u (by simp [hu]))

theorem dotted_cons (t : Token) (ts : List Token) :
    dotted (t :: ts) = t.bare :: ts.flatMap fun u => [Token.dot, u.bare] := by
  induction ts generalizing t with
  | nil => rfl
  | cons u us ih => simp [dotted, ih]

theorem namesBy_dotted {ts : List Token} (hne : ts ≠ []) (h : ∀ t ∈ ts, t.IsFreeName) (g : Text) :
    NamesBy .dot (ts.map Token.text) ((regap g (dotted ts)).map Item.token) := by
  obtain ⟨t, us, rfl⟩ := List.exists_cons_of_ne_nil hne
  rw [dotted_cons]
  have hlater := linked_dotted fun u hu => h u (List.mem_cons_of_mem t hu)
  exact ⟨_, _, _, _, rfl, by simp, (h t (by simp)).freeName? g, hlater⟩

theorem Lexeme.sign {c : Char} (hc : c = '-' ∨ c = '+') {s : Text} (hs : s.head? ≠ some '-') :
    Lexeme .operator [c] s := by
  have hchar : isBlank c = false ∧ c ≠ '#' ∧ c ≠ '/' := by rcases hc with rfl | rfl <;> decide
  have hpart : isNamePart '-' = false ∧ isNamePart '+' = false := by decide
  refine .intro (gapLength_eq_zero_iff.2 ⟨hchar.1, Bool.eq_false_iff.2 fun hopens => ?_, ?_⟩) ?_
  · rcases opensLineComment_iff.1 hopens with hsharp | ⟨-, rfl | ⟨d, t, rfl, -⟩⟩
    · exact hchar.2.1 hsharp
    · exact hs rfl
    · exact hs rfl
  · exact fun hslash => absurd hslash hchar.2.2
  · rcases hc with rfl | rfl <;> simp [lexeme?, Quote.ofMark?, hpart, operators]

theorem Lexeme.head_of_number {x r : Text} (h : Lexeme .number x r) : x.head? ≠ some '-' := by
  obtain @⟨c, x, _, hgap, hread⟩ := id h
  rintro hdash
  obtain rfl : c = '-' := by simpa using hdash
  obtain rfl := List.eq_nil_of_length_eq_zero (lexeme?_single (.inl rfl) hread)
  cases h.kind_of_dash

def Connective.word : Connective → String
  | .and => "AND"
  | .or => "OR"

namespace ConditionPart.Printed

variable {p : ConditionPart} {g : Text} {ts : List Token}

theorem readable_append (h : p.Printed g ts) {us : List Token} {r : Text}
    (hquiet : Quiet (sourceOf us ++ r)) (hus : Readable us r) : Readable (ts ++ us) r :=
  SoftDelete.readable_append.2 ⟨h.readable _ hquiet, hus⟩

theorem one {value : Operand} {kind : Token.Kind} {text r : Text} (hg : ClosedGap g)
    (htext : value.text = text) (hread : Lexeme kind text r)
    (h : Derives (.operand value) [.token ⟨g, kind, text⟩]) :
    Printed (.operand value) g [⟨g, kind, text⟩] where
  source := by simp [Token.source, ConditionPart.text, htext]
  derives := h
  readable s hs := ⟨⟨hg, hread.calmer (hs _)⟩, trivial⟩

theorem signed {i : Item} {t : Token} {r : Text} (hg : ClosedGap g)
    (hi : i.text = ['-'] ∨ i.text = ['+']) (ht : t.kind = .number)
    (hread : Lexeme t.kind t.text r) :
    Printed (.operand (.literal (i.text ++ t.text))) g
      [⟨g, .operator, i.text⟩, ⟨[], .number, t.text⟩] where
  source := by simp [Token.source, ConditionPart.text]
  derives := .signed (i := .token ⟨g, .operator, i.text⟩) (j := .token ⟨[], .number, t.text⟩)
    rfl hi rfl
  readable s hs := by
    rw [ht] at hread
    have hhead : (t.text ++ s).head? ≠ some '-' := by
      rw [List.head?_append_of_ne_nil _ hread.text_ne_nil]
      exact hread.head_of_number
    refine ⟨⟨hg, ?_⟩, ⟨closedGap_nil, hread.calmer (hs _)⟩, trivial⟩
    rcases hi with hi | hi <;> simpa [hi, Token.source] using Lexeme.sign (by simp) hhead

theorem column {names : List Token} (hne : names ≠ []) (hfree : ∀ t ∈ names, t.IsFreeName)
    (hread : ∀ t ∈ names, ∃ r, Lexeme t.kind t.text r) (hg : ClosedGap g) :
    Printed (.operand (.column (names.map Token.text))) g (regap g (dotted names)) where
  source := by
    obtain ⟨t, us, hts, hgap⟩ := exists_dotted hne
    have hsource := sourceOf_dotted names
    rw [hts] at hsource ⊢
    rw [sourceOf_regap]
    simpa [Token.source, hgap, ConditionPart.text] using hsource
  derives := .column (namesBy_dotted hne hfree g)
  readable s hs := by
    refine readable_regap hg (readable_dotted (fun t ht => (hfree t ht).canName) hread ?_)
    intro t ht
    obtain ⟨r, hr⟩ := hread t ht
    exact hr.calmer (hs r)

theorem call {t : Token} {closing : Item} {args : List Token} {rest : List Item} {r r' : Text}
    (hg : ClosedGap g) (ht : t.IsFreeName) (hcallee : (Item.token t).isCallee = true)
    (hread : Lexeme t.kind t.text r) (hargs : Readable args r')
    (henclosed : enclosed? Item.kind? 0 (args.map Item.token ++ closing :: rest) =
      some (args.map Item.token, closing, rest)) :
    Printed (.operand (.call t.text (outputOf (args.map Item.token)))) g
      (⟨g, t.kind, t.text⟩ :: ⟨[], .lparen, ['(']⟩ ::
        (regap [] args ++ [⟨[], .rparen, [')']⟩])) where
  source := by
    rw [outputOf_tokens]
    simp [Token.source, ConditionPart.text]
  derives := by
    have houtput : outputOf ((regap [] args).map Item.token) = outputOf (args.map Item.token) := by
      cases args <;> rfl
    have hkinds : ((regap [] args).map Item.token).map Item.kind? =
        (args.map Item.token).map Item.kind? := by
      cases args <;> rfl
    have hclosed := enclosed?_of_kinds henclosed hkinds
      (show Item.kind? (.token ⟨[], .rparen, [')']⟩) = _ from (kind_of_enclosed? henclosed).symm) []
    rw [← houtput]
    have hopening : (Item.token ⟨[], .lparen, ['(']⟩).hasKind .lparen = true := rfl
    simpa using Derives.call (ht.freeName? g) hcallee hopening hclosed
  readable s hs := by
    refine ⟨⟨hg, hread.calmer (.of_neutral rfl (by decide) _ _)⟩, ⟨closedGap_nil, .lparen _⟩, ?_⟩
    refine SoftDelete.readable_append.2 ⟨readable_regap closedGap_nil ?_,
      ⟨closedGap_nil, .rparen _⟩, trivial⟩
    exact (Flows.list args).readable (Safe.of_parenthesis (.inr rfl) _ _) hargs

theorem constant {text : Text} (hg : ClosedGap g) (htext : text ∈ constantWords) :
    Printed (.operand (.literal text)) g [⟨g, .word, text⟩] := by
  have hwords : ∀ word ∈ ["NULL", "TRUE", "FALSE", "UNKNOWN"],
      word ∈ printedWords ∧ word.toList.map Char.toUpper = word.toList := by decide
  obtain ⟨word, hword, rfl⟩ := List.mem_map.1 htext
  have hconstant : constantWords.any (Text.sameWord word.toList) = true :=
    List.any_eq_true.2 ⟨_, htext, Text.sameWord_refl _⟩
  have hderives := Derives.constant (i := .token ⟨g, .word, word.toList⟩) rfl hconstant
  rw [Item.text, (hwords word hword).2] at hderives
  exact one hg rfl (lexeme_of_printed (hwords word hword).1) hderives

theorem parenthesised {q : ConditionPart} (h : p.Printed [] ts) (hg : ClosedGap g)
    (htext : q.text = '(' :: (p.text ++ [')']))
    (hderives : Derives q (.token ⟨g, .lparen, ['(']⟩ ::
      (ts.map Item.token ++ [.token ⟨[], .rparen, [')']⟩]))) :
    q.Printed g (⟨g, .lparen, ['(']⟩ :: (ts ++ [⟨[], .rparen, [')']⟩])) where
  source := by simp [h.source, htext, Token.source]
  derives := by simpa using hderives
  readable s _ :=
    ⟨⟨hg, .lparen _⟩,
      h.readable_append (.cons rfl (by decide) s) ⟨⟨closedGap_nil, .rparen _⟩, trivial⟩⟩

theorem more {value : Operand} {values : List Operand} {us : List Token}
    (h : Printed (.operand value) g ts) (hmore : Printed (.operands values) [' '] us) :
    Printed (.operands (value :: values)) g (ts ++ ⟨[], .comma, [',']⟩ :: us) where
  source := by
    have hne := hmore.derives.values_ne_nil
    simp [h.source, hmore.source, Token.source, ConditionPart.text, Operand.listText_cons hne]
  derives := by
    have hcomma : (Item.token ⟨[], .comma, [',']⟩).hasKind .comma = true := rfl
    simpa using Derives.more h.derives hcomma hmore.derives
  readable s hs := by
    have hcomma : Lexeme .comma [','] [] := .intro (by decide) (by decide)
    refine h.readable_append (.cons rfl (by decide) _) ⟨⟨closedGap_nil, ?_⟩, hmore.readable s hs⟩
    rw [hmore.source]
    exact hcomma.calmer (Quiet.space _ [])

theorem compare {lhs rhs : Operand} {op : Comparator} {os us : List Token}
    (h : Printed (.operand lhs) g ts) (hop : op.Printed os) (hrhs : Printed (.operand rhs) [' '] us) :
    Printed (.term (.compare lhs op rhs)) g (ts ++ (os ++ us)) where
  source := by
    simp [h.source, hop.source, hrhs.source, ConditionPart.text, Condition.text]
  derives := by simpa using Derives.compare h.derives hop.compares hrhs.derives
  readable s hs := by
    refine h.readable_append ?_ (SoftDelete.readable_append.2 ⟨?_, hrhs.readable s hs⟩)
    · rw [sourceOf_append, hop.source]
      exact .space _
    · rw [hrhs.source]
      exact hop.readable _

theorem not {c : Condition} (h : Printed (.term c) [' '] ts) (hg : ClosedGap g) :
    Printed (.term (.not c)) g (⟨g, .word, "NOT".toList⟩ :: ts) where
  source := by simp [h.source, Token.source, ConditionPart.text, Condition.text]
  derives := .not (i := .token ⟨g, .word, "NOT".toList⟩) rfl h.derives
  readable s hs := by
    refine ⟨⟨hg, ?_⟩, h.readable s hs⟩
    rw [h.source]
    exact (lexeme_of_printed (by decide)).calmer (Quiet.space _ [])

theorem connect {c d : Condition} {us : List Token} (k : Connective)
    (h : Printed (.condition c) g ts) (hmore : Printed (.term d) [' '] us) :
    Printed (.condition (k.join c d)) g (ts ++ Token.spaced k.word :: us) where
  source := by
    cases k <;>
      simp [h.source, hmore.source, Token.source, Token.spaced, ConditionPart.text, Condition.text,
        Connective.join, Connective.word]
  derives := by
    have hword : Connective.ofItem? (.token (Token.spaced k.word)) = some k := by cases k <;> rfl
    simpa using Derives.connect h.derives hword hmore.derives
  readable s hs := by
    have hword : Lexeme .word k.word.toList [] := lexeme_of_printed (by cases k <;> decide)
    refine h.readable_append (.space _) ⟨⟨closedGap_blank rfl, ?_⟩, hmore.readable s hs⟩
    rw [hmore.source]
    exact hword.calmer (Quiet.space _ [])

end ConditionPart.Printed

theorem toUpper_toLower (c : Char) : c.toLower.toUpper = c.toUpper := by
  by_cases hupper : c.toNat ≤ 90 ∧ 65 ≤ c.toNat
  · have hall : ∀ n ≤ 90, (Char.ofNat n).toLower.toUpper = (Char.ofNat n).toUpper := by decide
    rw [← Char.ofNat_toNat c]
    exact hall _ hupper.1
  · have hsame : c.toLower = c := by
      unfold Char.toLower
      exact dif_neg fun h => hupper ⟨h.2, h.1⟩
    rw [hsame]

theorem toUpper_mem_constantWords {text : Text}
    (h : constantWords.any (Text.sameWord text) = true) :
    text.map Char.toUpper ∈ constantWords := by
  have hupper : ∀ word ∈ constantWords, word.map Char.toUpper = word := by decide
  obtain ⟨word, hword, hsame⟩ := List.any_eq_true.1 h
  have hlower : text.map Char.toLower = word.map Char.toLower := by simpa [Text.sameWord] using hsame
  have hequal : text.map Char.toUpper = word.map Char.toUpper := by
    simpa [Function.comp_def, toUpper_toLower] using congrArg (List.map Char.toUpper) hlower
  rw [hequal, hupper word hword]
  exact hword

theorem Derives.exists_printed {p : ConditionPart} {items : List Item} (h : Derives p items)
    (hitems : Tokenised items) {g : Text} (hg : ClosedGap g) : ∃ ts, p.Printed g ts := by
  have hspace : ClosedGap [' '] := closedGap_blank rfl
  induction h generalizing g with
  | subselect =>
      obtain ⟨t, r, ht, -⟩ := hitems.head
      cases ht
  | number hi =>
      obtain ⟨t, r, rfl, hread⟩ := hitems.head
      exact ⟨_, .one hg rfl hread (.number (i := .token ⟨g, t.kind, t.text⟩) hi)⟩
  | quoted hq hi =>
      obtain ⟨t, r, rfl, hread⟩ := hitems.head
      exact ⟨_, .one hg rfl hread (.quoted (i := .token ⟨g, t.kind, t.text⟩) hq hi)⟩
  | constant hi hword =>
      obtain ⟨t, r, rfl, hread⟩ := hitems.head
      exact ⟨_, .constant hg (toUpper_mem_constantWords hword)⟩
  | param hi =>
      have hread : Lexeme .param ['?'] [] := .intro (by decide) (by decide)
      exact ⟨_, .one hg rfl hread (.param rfl)⟩
  | signed hi hsign hj =>
      obtain ⟨t, r, rfl, hread⟩ := hitems.tail.head
      have hkind : t.kind = .number := Option.some.inj (Item.kind?_of_hasKind hj)
      exact ⟨_, .signed hg hsign hkind hread⟩
  | column h =>
      obtain ⟨names, rfl, hsub, hfree⟩ := FreelyNamed.of_namesBy h
      have hne : names ≠ [] := by
        obtain ⟨i, text, xs, rest, -, htexts, -⟩ := h
        rintro rfl
        cases htexts
      exact ⟨_, .column hne hfree
        (fun t ht => hitems.lexeme (hsub.subset (List.mem_map_of_mem ht))) hg⟩
  | call hi hcallee hopening hargs =>
      obtain ⟨t, rfl, rfl, hfree⟩ := Item.isFreeName_of_freeName? hi
      obtain ⟨r, hread⟩ := hitems.lexeme (t := t) (by simp)
      obtain ⟨args, r', rfl, hinner⟩ := hitems.tail.tail.append.1
      exact ⟨_, .call hg hfree hcallee hread hinner hargs⟩
  | list hopening hvalues hclosing ih =>
      obtain ⟨ts, hts⟩ := ih hitems.tail.append.1 closedGap_nil
      exact ⟨_, hts.parenthesised hg rfl (.list rfl hts.derives rfl)⟩
  | one _ ih =>
      obtain ⟨ts, hts⟩ := ih hitems hg
      exact ⟨ts, hts.source, .one hts.derives, hts.readable⟩
  | more _ hcomma hrest ih ihrest =>
      obtain ⟨ts, hts⟩ := ih hitems.append.1 hg
      obtain ⟨us, hus⟩ := ihrest hitems.append.2.tail hspace
      exact ⟨_, hts.more hus⟩
  | compare _ hop _ ihl ihr =>
      obtain ⟨ts, hts⟩ := ihl hitems.append.1 hg
      obtain ⟨os, hos⟩ := Comparator.exists_printed _
      obtain ⟨us, hus⟩ := ihr hitems.append.2.append.2 hspace
      exact ⟨_, hts.compare hos hus⟩
  | not hi _ ih =>
      obtain ⟨ts, hts⟩ := ih hitems.tail hspace
      exact ⟨_, hts.not hg⟩
  | group _ _ _ ih =>
      obtain ⟨ts, hts⟩ := ih hitems.tail.append.1 closedGap_nil
      exact ⟨_, hts.parenthesised hg rfl (.group rfl hts.derives rfl)⟩
  | single _ ih =>
      obtain ⟨ts, hts⟩ := ih hitems hg
      exact ⟨ts, hts.source, .single hts.derives, hts.readable⟩
  | connect _ hi _ ih ihrest =>
      obtain ⟨ts, hts⟩ := ih hitems.append.1 hg
      obtain ⟨us, hus⟩ := ihrest hitems.append.2.tail hspace
      exact ⟨_, hts.connect _ hus⟩

section Reread

def joinTokens : List Token :=
  [⟨[], .word, "a".toList⟩, Token.spaced "JOIN", Token.spaced "b", Token.spaced "ON"]

theorem sourceOf_joinTokens : sourceOf joinTokens ++ [' '] = "a JOIN b ON ".toList := by
  decide

theorem readable_joinTokens (s : Text) : Readable joinTokens (' ' :: s) := by
  have hwords : ∀ word ∈ ["JOIN", "b", "ON"], word ∈ printedWords := by decide
  have hfirst : Lexeme .word "a".toList [] := .intro (by decide) (by decide)
  exact ⟨⟨closedGap_nil, hfirst.calmer (Quiet.space _ [])⟩,
    Comparator.readable_spaced (fun word hword => lexeme_of_printed (hwords word hword)) s⟩

def joinOn (tree : Condition) (n : Nat) : Join where
  kind := .join
  table := ⟨some "b".toList, none, ⟨2, 3⟩⟩
  clause := some (.on tree ⟨4, 4 + n⟩)
  keywordItems := ⟨1, 2⟩
  items := ⟨1, 4 + n⟩

def referencesOn (tree : Condition) (n : Nat) : References :=
  ⟨⟨some "a".toList, none, ⟨0, 1⟩⟩, [joinOn tree n]⟩

theorem word_spans {word : String} (hfree : isReservedWord word.toList = false) (gap : Text)
    (start : Nat) : (⟨some word.toList, none, ⟨start, start + 1⟩⟩ : Reference).Spans start
      [.token ⟨gap, .word, word.toList⟩] := by
  have hname : (Item.token ⟨gap, .word, word.toList⟩).freeName? = some word.toList := by
    simp [Item.freeName?, Item.kind?, Item.text, hfree]
  have hnames : NamesBy .dot [word.toList] [.token ⟨gap, .word, word.toList⟩] :=
    ⟨_, _, [], [], rfl, rfl, hname, .nil⟩
  have htable : TableName (some word.toList) [.token ⟨gap, .word, word.toList⟩] := by
    simpa [Text.joined] using TableName.named hnames
  exact ⟨rfl, _, [], (List.append_nil _).symm, htable, .none⟩

theorem referencesOn_spans {tree : Condition} {items : List Item}
    (h : Derives (.condition tree) items) :
    (referencesOn tree items.length).Spans 0 ((joinTokens.take 1).map Item.token)
      ((joinTokens.drop 1).map Item.token ++ items) := by
  have hkind : Join.Kind.Spans .join [.token (Token.spaced "JOIN")] :=
    .inr ⟨by decide, ["JOIN"], by decide, rfl, rfl⟩
  have hon : Join.Clause.Spans 3 (.token (Token.spaced "ON") :: items)
      (some (.on tree ⟨4, 4 + items.length⟩)) := .on rfl h
  have hjoin : (joinOn tree items.length).Spans 1
      ([.token (Token.spaced "JOIN")] ++ [.token (Token.spaced "b")] ++
        (.token (Token.spaced "ON") :: items)) := by
    refine .intro hkind rfl (word_spans (by decide) _ _) hon ?_
    simp [joinOn, Nat.add_comm, Nat.add_left_comm]
  refine ⟨word_spans (by decide) [] 0, ?_⟩
  simpa [referencesOn, joinTokens] using Join.ListSpans.cons hjoin .nil

end Reread

def Join.Clause.tree? : Option Join.Clause → Option Condition
  | some (.on tree _) => some tree
  | _ => none

theorem Join.Clause.exists_of_tree? {own : Option Join.Clause} {tree : Condition}
    (h : Join.Clause.tree? own = some tree) : ∃ range, own = some (.on tree range) := by
  cases own with
  | none => cases h
  | some clause =>
      cases clause with
      | «using» columns => cases h
      | on tree' range =>
          cases h
          exact ⟨range, rfl⟩

theorem Join.ListSpans.exists_condition {start : Nat} {items : List Item} {js : List Join}
    (h : Join.ListSpans start items js) {j : Join} (hj : j ∈ js) {tree : Condition}
    {range : ItemRange} (htree : j.clause = some (.on tree range)) :
    ∃ front cond back, items = front ++ (cond ++ back) ∧ Derives (.condition tree) cond := by
  obtain ⟨front, used, back, rfl, hspans⟩ := h.exists_spans hj
  obtain @⟨keyword, table, own, _, -, -, -, hown, -⟩ := hspans
  rw [htree] at hown
  cases hown with
  | @on i cond _ _ hcond => exact ⟨front ++ (keyword ++ table ++ [i]), cond, back, by simp, hcond⟩

theorem Tokenised.of_ofText {s : Text} {lexed : Lexed} (h : Lexed.ofText s = .ok lexed) :
    Tokenised (lexed.tokens.map Item.token) :=
  ⟨_, _, rfl, (readable_of_lex (lex_of_ofText h)).1⟩

theorem Condition.text_reread {s : Text} {lexed : Lexed} {r : References} {maxJoins m : Nat}
    {j : Join} {tree : Condition} {range : ItemRange} (hlexed : Lexed.ofText s = .ok lexed)
    (hread : References.parse maxNesting maxJoins 0 (lexed.tokens.map Item.token) none = .ok r)
    (hj : j ∈ r.joins) (htree : j.clause = some (.on tree range)) (hm : 1 ≤ m) :
    ∃ lexed' r' k range', Lexed.ofText ("a JOIN b ON ".toList ++ tree.text) = .ok lexed' ∧
      References.parse maxNesting m 0 (lexed'.tokens.map Item.token) none = .ok r' ∧
      r'.joins = [k] ∧ k.clause = some (.on tree range') := by
  have hitems := Tokenised.of_ofText hlexed
  obtain ⟨hfits, hclear⟩ := References.parse_steady ⟨hitems.shows, rfl⟩ hread j hj
  rw [htree] at hfits hclear
  obtain ⟨head, rest, hsplit, hspans⟩ := References.parse_spans hread
  obtain ⟨front, cond, back, rfl, hcond⟩ := hspans.joins.exists_condition hj htree
  rw [hsplit] at hitems
  obtain ⟨ts, hts⟩ := hcond.exists_printed hitems.append.2.append.2.append.1
    (g := [' ']) (closedGap_blank rfl)
  have hnew : Readable (joinTokens ++ ts) [] :=
    readable_append.2 ⟨by rw [hts.source]; exact readable_joinTokens _, hts.readable _ .nil⟩
  have hsource : sourceOf (joinTokens ++ ts) = "a JOIN b ON ".toList ++ tree.text := by
    rw [sourceOf_append, hts.source, ← sourceOf_joinTokens, List.append_assoc]
    rfl
  have hlex := lex_of_readable hnew rfl
  rw [List.append_nil, hsource] at hlex
  let n := (ts.map Item.token).length
  have hbehind : Tokenised ((joinTokens.drop 1).map Item.token ++ ts.map Item.token) :=
    ⟨_, [], List.map_append.symm, hnew.2⟩
  have hjoinFits : ∀ k ∈ (referencesOn tree n).joins, Join.Clause.Fits maxNesting k.clause := by
    simpa [referencesOn, joinOn, Join.Clause.Fits] using hfits
  have hcertain : Certain none ((referencesOn tree n).joins.all (Join.Clause.isClear ·.clause))
      ((joinTokens.drop 1).map Item.token ++ ts.map Item.token) :=
    ⟨⟨hbehind.shows, rfl⟩, by simpa [referencesOn, joinOn, Join.Clause.isClear] using hclear⟩
  have hparse := References.parse_of_clear (referencesOn_spans hts.derives) hm hjoinFits hcertain
  rw [← List.append_assoc, ← List.map_append, List.take_append_drop, ← List.map_append] at hparse
  exact ⟨⟨joinTokens ++ ts, []⟩, referencesOn tree n, joinOn tree n, _, ofText_of_lex hlex, hparse,
    rfl, rfl⟩

theorem Condition.text_reread_signed :
    let s := "a JOIN b ON a.x != - 1 && not f(b.`y` /* of b */, (2)) in ('q', +5) OR ? is null".toList
    let lexed := (Lexed.ofText s).toOption.getD ⟨[], []⟩
    ∃ r j tree range, (Lexed.ofText s = .ok lexed ∧
      References.parse maxNesting 64 0 (lexed.tokens.map Item.token) none = .ok r ∧
      j ∈ r.joins ∧ j.clause = some (.on tree range) ∧ 1 ≤ 1) ∧
      ∃ lexed' r' k range', Lexed.ofText ("a JOIN b ON ".toList ++ tree.text) = .ok lexed' ∧
        References.parse maxNesting 1 0 (lexed'.tokens.map Item.token) none = .ok r' ∧
        r'.joins = [k] ∧ k.clause = some (.on tree range') := by
  intro s lexed
  have hlexed : Lexed.ofText s = .ok lexed := by decide +kernel
  obtain ⟨r, hread, j, hj, hclause⟩ : ∃ r,
      References.parse maxNesting 64 0 (lexed.tokens.map Item.token) none = .ok r ∧
        ∃ j ∈ r.joins, (Join.Clause.tree? j.clause).isSome = true :=
    exists_ok_of_any (by decide +kernel)
  obtain ⟨tree, htree⟩ := Option.isSome_iff_exists.1 hclause
  obtain ⟨range, hrange⟩ := Join.Clause.exists_of_tree? htree
  exact ⟨r, j, tree, range, ⟨hlexed, hread, hj, hrange, Nat.le_refl 1⟩,
    text_reread hlexed hread hj hrange (Nat.le_refl 1)⟩

end SoftDelete
