import SoftDelete.Proofs.Join.Layout
import SoftDelete.Proofs.Join.Walk
import SoftDelete.Proofs.Sql.Parentheses
import SoftDelete.Sql.Lexed

namespace SoftDelete

open Reading

inductive Symbol where
  | name (text : Text)
  | literal (text : Text)
  | mark (kind : Token.Kind)
  | comparator (op : Comparator)
  | connective (k : Connective)
  | negation
  | arguments (text : Text)
  | subselect

mutual

def Operand.symbols : Operand → List Symbol
  | .column parts => (parts.map Symbol.name).intersperse (.mark .dot)
  | .literal text => [.literal text]
  | .param => [.mark .param]
  | .call name args => [.name name, .mark .lparen, .arguments args, .mark .rparen]
  | .list values => .mark .lparen :: (Operand.listSymbols values ++ [.mark .rparen])
  | .subselect => [.subselect]

def Operand.listSymbols : List Operand → List Symbol
  | [] => []
  | [value] => value.symbols
  | value :: values => value.symbols ++ .mark .comma :: Operand.listSymbols values

end

def Condition.symbols : Condition → List Symbol
  | .compare lhs op rhs => lhs.symbols ++ .comparator op :: rhs.symbols
  | .not inner => .negation :: inner.symbols
  | .group inner => .mark .lparen :: (inner.symbols ++ [.mark .rparen])
  | .and lhs rhs => lhs.symbols ++ .connective .and :: rhs.symbols
  | .or lhs rhs => lhs.symbols ++ .connective .or :: rhs.symbols

def ConditionPart.symbols : ConditionPart → List Symbol
  | .operand value => value.symbols
  | .operands values => Operand.listSymbols values
  | .term c | .condition c => c.symbols

inductive Symbol.Covers : Symbol → List Item → Prop where
  | name {i : Item} {text : Text} (hi : i.freeName? = some text) : Covers (.name text) [i]
  | number {i : Item} (hi : i.hasKind .number = true) : Covers (.literal i.text) [i]
  | quoted {i : Item} {q : Quote} (hq : q ≠ .backtick) (hi : i.hasKind (.quoted q) = true) :
      Covers (.literal i.text) [i]
  | signed {i j : Item} (hi : i.hasKind .operator = true)
      (hsign : i.text = ['-'] ∨ i.text = ['+']) (hj : j.hasKind .number = true) :
      Covers (.literal (i.text ++ j.text)) [i, j]
  | constant {i : Item} (hi : i.hasKind .word = true)
      (hword : constantWords.any (Text.sameWord i.text) = true) :
      Covers (.literal (i.text.map Char.toUpper)) [i]
  | mark {i : Item} {kind : Token.Kind} (hi : i.hasKind kind = true) : Covers (.mark kind) [i]
  | comparator {op : Comparator} {items : List Item} (h : Compares op items) :
      Covers (.comparator op) items
  | connective {i : Item} {k : Connective} (hi : Connective.ofItem? i = some k) :
      Covers (.connective k) [i]
  | negation {i : Item} (hi : i.spells "NOT" = true) : Covers .negation [i]
  | arguments {args : List Item} (hopen : StaysOpen Item.kind? 0 args)
      (hclosed : closings Item.kind? args = openings Item.kind? args) :
      Covers (.arguments (outputOf args)) args
  | subselect {gap text body : Text} : Covers .subselect [.subselect gap text body]

inductive Yields : List Symbol → List Item → Prop where
  | nil : Yields [] []
  | cons {s : Symbol} {symbols : List Symbol} {items rest : List Item} (h : s.Covers items)
      (hrest : Yields symbols rest) : Yields (s :: symbols) (items ++ rest)

namespace Yields

variable {symbols more : List Symbol} {items rest : List Item}

theorem append (h : Yields symbols items) (hmore : Yields more rest) :
    Yields (symbols ++ more) (items ++ rest) := by
  induction h with
  | nil => exact hmore
  | cons hs _ ih =>
      rw [List.append_assoc]
      exact .cons hs ih

theorem one {s : Symbol} (h : s.Covers items) : Yields [s] items := by
  simpa using cons h .nil

theorem mark {i : Item} {kind : Token.Kind} (hi : i.hasKind kind = true) :
    Yields [.mark kind] [i] :=
  one (.mark hi)

theorem parenthesised {opening closing : Item} (hopening : opening.hasKind .lparen = true)
    (h : Yields symbols items) (hclosing : closing.hasKind .rparen = true) :
    Yields (.mark .lparen :: (symbols ++ [.mark .rparen])) (opening :: (items ++ [closing])) :=
  cons (.mark hopening) (h.append (mark hclosing))

end Yields

theorem Linked.yields_names {xs : List (Unit × Text)} {items : List Item}
    (h : Linked Named (mark? .dot) xs items) {i : Item} {text : Text}
    (hi : i.freeName? = some text) :
    Yields (((text :: xs.map Prod.snd).map Symbol.name).intersperse (.mark .dot)) (i :: items) := by
  induction h generalizing i text with
  | nil => exact .one (.name hi)
  | @cons dot _ next _ rest xs hdot hnext _ ih =>
      obtain ⟨j, rfl, hj⟩ := hnext
      exact .cons (.name hi) (.cons (.mark (hasKind_of_mark? hdot)) (ih hj))

theorem NamesBy.yields {texts : List Text} {items : List Item} (h : NamesBy .dot texts items) :
    Yields ((texts.map Symbol.name).intersperse (.mark .dot)) items := by
  obtain ⟨i, text, xs, rest, rfl, rfl, hi, hrest⟩ := h
  exact hrest.yields_names hi

theorem Operand.listSymbols_cons {values : List Operand} (h : values ≠ []) (value : Operand) :
    listSymbols (value :: values) = value.symbols ++ .mark .comma :: listSymbols values := by
  cases values with
  | nil => exact absurd rfl h
  | cons v vs => rw [listSymbols.eq_3 value (v :: vs) (by simp)]

theorem Derives.values_ne_nil {values : List Operand} {items : List Item}
    (h : Derives (.operands values) items) : values ≠ [] := by
  cases h <;> simp

theorem Connective.join_symbols (k : Connective) (c d : Condition) :
    (k.join c d).symbols = c.symbols ++ .connective k :: d.symbols := by
  cases k <;> rfl

theorem Derives.yields {p : ConditionPart} {items : List Item} (h : Derives p items) :
    Yields p.symbols items := by
  induction h with
  | subselect => exact .one .subselect
  | number hi => exact .one (.number hi)
  | quoted hq hi => exact .one (.quoted hq hi)
  | constant hi hword => exact .one (.constant hi hword)
  | param hi => exact .mark hi
  | signed hi hsign hj => exact .one (.signed hi hsign hj)
  | column h => exact h.yields
  | @call i opening closing text args rest hi _ hopening hargs =>
      have hclosing : closing.hasKind .rparen = true := by
        simp [Item.hasKind, kind_of_enclosed? hargs]
      have hcount := closings_of_enclosed? hargs
      rw [Nat.zero_add] at hcount
      have hinner : Yields [.arguments (outputOf args)] args :=
        .one (.arguments (staysOpen_of_enclosed? hargs) hcount)
      exact .cons (.name hi) (.parenthesised hopening hinner hclosing)
  | list hopening _ hclosing ih | group hopening _ hclosing ih =>
      exact .parenthesised hopening ih hclosing
  | one _ ih | single _ ih => exact ih
  | more _ hcomma hrest ih ihrest =>
      rw [ConditionPart.symbols, Operand.listSymbols_cons hrest.values_ne_nil]
      exact ih.append (.cons (.mark hcomma) ihrest)
  | compare _ hop _ ihl ihr => exact ihl.append (.cons (.comparator hop) ihr)
  | not hi _ ih => exact .cons (.negation hi) ih
  | connect _ hi _ ih ihrest =>
      rw [ConditionPart.symbols, Connective.join_symbols]
      exact ih.append (.cons (.connective hi) ihrest)

def Token.IsFreeName (t : Token) : Prop :=
  (∃ q, t.kind = .quoted q) ∨ (t.kind = .word ∧ isReservedWord t.text = false)

theorem Item.isFreeName_of_freeName? {i : Item} {text : Text} (h : i.freeName? = some text) :
    ∃ t : Token, i = .token t ∧ t.text = text ∧ t.IsFreeName := by
  obtain ⟨t, rfl, hname, htext⟩ := freeName?_eq_some h
  refine ⟨t, rfl, htext, ?_⟩
  unfold Token.canName at hname
  split at hname
  · rename_i hkind
    refine .inr ⟨hkind, Bool.eq_false_iff.2 fun hreserved => ?_⟩
    simp [freeName?, kind?, hkind, Item.text, hreserved] at h
  · rename_i q hkind
    exact .inl ⟨q, hkind⟩
  · cases hname

def FreelyNamed (texts : List Text) (items : List Item) : Prop :=
  ∃ names : List Token, texts = names.map Token.text ∧
    List.Sublist (names.map Item.token) items ∧ ∀ t ∈ names, t.IsFreeName

namespace FreelyNamed

variable {texts more : List Text} {items rest : List Item}

theorem append (h : FreelyNamed texts items) (hmore : FreelyNamed more rest) :
    FreelyNamed (texts ++ more) (items ++ rest) := by
  obtain ⟨names, rfl, hsub, hfree⟩ := h
  obtain ⟨others, rfl, hother, hothers⟩ := hmore
  refine ⟨names ++ others, by simp, by simpa using hsub.append hother, fun t ht => ?_⟩
  exact (List.mem_append.1 ht).elim (hfree t) (hothers t)

theorem behind (h : FreelyNamed texts items) (front : List Item) :
    FreelyNamed texts (front ++ items) := by
  obtain ⟨names, rfl, hsub, hfree⟩ := h
  exact ⟨names, rfl, hsub.trans (List.sublist_append_right ..), hfree⟩

theorem before (h : FreelyNamed texts items) (rest : List Item) :
    FreelyNamed texts (items ++ rest) := by
  obtain ⟨names, rfl, hsub, hfree⟩ := h
  exact ⟨names, rfl, hsub.trans (List.sublist_append_left ..), hfree⟩

theorem one {i : Item} {text : Text} (h : i.freeName? = some text) : FreelyNamed [text] [i] := by
  obtain ⟨t, rfl, rfl, hfree⟩ := Item.isFreeName_of_freeName? h
  exact ⟨[t], rfl, by simp, by simpa using hfree⟩

theorem of_linked {β : Type} {link? : Item → Option β} {xs : List (β × Text)}
    (h : Linked Named link? xs items) : FreelyNamed (xs.map Prod.snd) items := by
  induction h with
  | nil => exact ⟨[], rfl, .slnil, nofun⟩
  | @cons i b text used rest xs _ hname _ ih =>
      obtain ⟨j, rfl, hj⟩ := hname
      exact ((one hj).append ih).behind [i]

theorem of_namesBy {mark : Token.Kind} (h : NamesBy mark texts items) :
    FreelyNamed texts items := by
  obtain ⟨i, text, xs, rest, rfl, rfl, hi, hrest⟩ := h
  exact (one hi).append (of_linked hrest)

end FreelyNamed

structure Reference.FreelyNamed (r : Reference) (items : List Item) : Prop where
  name : ∀ name, r.name = some name →
    ∃ parts, parts ≠ [] ∧ name = Text.joined "." parts ∧ SoftDelete.FreelyNamed parts items
  aliasName : ∀ text, r.aliasName = some text → SoftDelete.FreelyNamed [text] items

def Level.Holds (l : Level) (range : ItemRange) (items : List Item) : Prop :=
  ∃ front rest, l.items = front ++ (items ++ rest) ∧
    range = ⟨front.length, front.length + items.length⟩

def Reference.Fills (r : Reference) (l : Level) : Prop :=
  ∃ table tail, l.Holds r.items (table ++ tail) ∧ TableName r.name table ∧
    AliasName r.aliasName tail ∧ r.FreelyNamed (table ++ tail)

inductive Join.Clause.Fills (l : Level) (range : ItemRange) : Option Join.Clause → Prop where
  | none (h : l.Holds range []) : Fills l range none
  | on {keyword : Item} {tree : Condition} {items : ItemRange} {cond : List Item}
      (h : l.Holds range (keyword :: cond)) (hkeyword : keyword.spells "ON" = true)
      (hitems : items = ⟨range.start + 1, range.stop⟩)
      (hcond : Derives (.condition tree) cond) (hyields : Yields tree.symbols cond) :
      Fills l range (some (.on tree items))
  | using {keyword opening closing : Item} {names : List Item} {columns : List Text}
      (h : l.Holds range (keyword :: opening :: (names ++ [closing])))
      (hkeyword : keyword.spells "USING" = true) (hopening : opening.hasKind .lparen = true)
      (hnames : NamesBy .comma columns names) (hclosing : closing.hasKind .rparen = true) :
      Fills l range (some (.using columns))

structure Join.Fills (j : Join) (l : Level) : Prop where
  start : j.keywordItems.start = j.items.start
  keyword : ∃ items, l.Holds j.keywordItems items ∧ j.kind.Spans items
  adjacent : j.table.items.start = j.keywordItems.stop
  table : j.table.Fills l
  clause : Join.Clause.Fills l ⟨j.table.items.stop, j.items.stop⟩ j.clause

inductive Join.ListFills (l : Level) : ItemRange → List Join → Prop where
  | nil {n : Nat} : ListFills l ⟨n, n⟩ []
  | cons {stop : Nat} {j : Join} {js : List Join} (h : j.Fills l)
      (hrest : ListFills l ⟨j.items.stop, stop⟩ js) : ListFills l ⟨j.items.start, stop⟩ (j :: js)

structure References.Fills (r : References) (l : Level) (range : ItemRange) : Prop where
  start : r.first.items.start = range.start
  first : r.first.Fills l
  joins : Join.ListFills l ⟨r.first.items.stop, range.stop⟩ r.joins

theorem TableName.freely {text : Text} {items : List Item} (h : TableName (some text) items) :
    ∃ parts, parts ≠ [] ∧ text = Text.joined "." parts ∧ FreelyNamed parts items := by
  cases h with
  | @named parts _ h =>
      refine ⟨parts, ?_, rfl, .of_namesBy h⟩
      obtain ⟨i, text, xs, rest, -, rfl, -⟩ := h
      simp

theorem AliasName.freely {text : Text} {items : List Item} (h : AliasName (some text) items) :
    FreelyNamed [text] items := by
  cases h with
  | bare hi => exact .one hi
  | @as keyword _ _ _ hi => exact (FreelyNamed.one hi).behind [keyword]

section Fill

variable {l : Level} {front items rest : List Item}

theorem Level.holds_of_append {start stop : Nat} (h : l.items = front ++ (items ++ rest))
    (hstart : start = front.length) (hstop : stop = front.length + items.length) :
    l.Holds ⟨start, stop⟩ items :=
  ⟨front, rest, h, by rw [hstart, hstop]⟩

theorem Reference.Spans.fills {r : Reference} (h : r.Spans front.length items)
    (hl : l.items = front ++ (items ++ rest)) : r.Fills l := by
  obtain ⟨table, tail, rfl, htable, htail⟩ := h.derives
  refine ⟨table, tail, ⟨front, rest, hl, h.range⟩, htable, htail, ⟨fun name hname => ?_,
    fun text htext => ?_⟩⟩
  · obtain ⟨parts, hne, hjoined, hfree⟩ := (hname ▸ htable).freely
    exact ⟨parts, hne, hjoined, hfree.before tail⟩
  · exact (htext ▸ htail).freely.behind table

theorem Join.Clause.Spans.fills {clause : Option Join.Clause} {stop : Nat}
    (h : Join.Clause.Spans front.length items clause) (hl : l.items = front ++ (items ++ rest))
    (hstop : stop = front.length + items.length) :
    Join.Clause.Fills l ⟨front.length, stop⟩ clause := by
  have hholds : l.Holds ⟨front.length, stop⟩ items := Level.holds_of_append hl rfl hstop
  cases h with
  | none => exact .none hholds
  | on hon hcond => exact .on hholds hon (by simp [hstop]; omega) hcond hcond.yields
  | «using» husing hopening hnames hclosing => exact .using hholds husing hopening hnames hclosing

theorem Join.Spans.fills {j : Join} (h : j.Spans front.length items)
    (hl : l.items = front ++ (items ++ rest)) : j.Fills l := by
  obtain @⟨keyword, table, own, _, hkeyword, hkeywords, htable, hown, hitems⟩ := h
  have hbehind : l.items = (front ++ keyword) ++ (table ++ (own ++ rest)) := by simp [hl]
  have hlast : l.items = (front ++ keyword ++ table) ++ (own ++ rest) := by simp [hl]
  rw [← List.length_append] at htable
  constructor
  · rw [hkeywords, hitems]
  · refine ⟨keyword, ⟨front, table ++ (own ++ rest), by simp [hl], hkeywords⟩, hkeyword⟩
  · rw [htable.range, hkeywords, List.length_append]
  · exact htable.fills hbehind
  · rw [← Nat.add_assoc, ← List.length_append, ← List.length_append] at hown
    have hstop : j.items.stop = (front ++ keyword ++ table).length + own.length := by
      simp [hitems, Nat.add_assoc]
    rw [htable.range]
    simpa [Nat.add_assoc] using hown.fills hlast hstop

theorem Join.ListSpans.fills {js : List Join} {start : Nat} (h : Join.ListSpans start items js)
    (hstart : start = front.length) (hl : l.items = front ++ (items ++ rest)) :
    Join.ListFills l ⟨front.length, front.length + items.length⟩ js := by
  induction h generalizing front with
  | nil => exact .nil
  | @cons start items more j js hfirst _ ih =>
      subst hstart
      have hbehind : l.items = (front ++ items) ++ (more ++ rest) := by simp [hl]
      have hmore := ih List.length_append.symm hbehind
      have hbegins : l.items = front ++ (items ++ (more ++ rest)) := by simp [hl]
      have hitems : j.items = ⟨front.length, front.length + items.length⟩ := by
        cases hfirst
        assumption
      have hjoins : Join.ListFills l
          ⟨j.items.stop, front.length + (items ++ more).length⟩ js := by
        simpa [hitems, Nat.add_assoc] using hmore
      have hall := Join.ListFills.cons (hfirst.fills hbegins) hjoins
      rwa [hitems] at hall

theorem References.Spans.fills {r : References} {head joined : List Item}
    (h : r.Spans front.length head joined) (hl : l.items = front ++ ((head ++ joined) ++ rest)) :
    r.Fills l ⟨front.length, front.length + (head ++ joined).length⟩ := by
  have hjoined : l.items = (front ++ head) ++ (joined ++ rest) := by simp [hl]
  constructor
  · rw [h.first.range]
  · have hhead : l.items = front ++ (head ++ (joined ++ rest)) := by simp [hl]
    exact h.first.fills hhead
  · have hjoins := h.joins.fills (by simp) hjoined
    rw [h.first.range]
    simpa [Nat.add_assoc] using hjoins

end Fill

theorem References.parse_fills {l : Level} {room maxJoins first stop : Nat} {after : Option Item}
    {r : References} (hfirst : first ≤ stop) (hstop : stop ≤ l.items.length)
    (h : References.parse room maxJoins first (l.itemsIn first stop) after = .ok r) :
    r.Fills l ⟨first, stop⟩ := by
  obtain ⟨head, joined, hsplit, hspans⟩ := parse_spans h
  have hl : l.items = l.items.take first ++ ((head ++ joined) ++ l.items.drop stop) := by
    have hrest : (l.items.drop first).drop (stop - first) = l.items.drop stop := by
      rw [List.drop_drop, Nat.add_sub_cancel' hfirst]
    rw [← hsplit, Level.itemsIn, ← hrest, List.take_append_drop, List.take_append_drop]
  have hlength : (l.items.take first).length = first := by simp; omega
  have hitems : (head ++ joined).length = stop - first := by
    rw [← hsplit, Level.itemsIn, List.length_take, List.length_drop]
    omega
  rw [← hlength] at hspans
  have hfills := hspans.fills hl
  rwa [hlength, hitems, Nat.add_sub_cancel' hfirst] at hfills

theorem References.parse_fills_three_tables :
    let read (sql : String) : List Item :=
      ((lex sql.toList).toOption.map fun l => l.tokens.map Item.token).getD []
    let condition := "NOT f(a.x, (1)) IN (s.y, -2) && s.z IS null"
    let l : Level := ⟨read "SELECT 1 FROM db.t AS a JOIN" ++
      .subselect [' '] "(SELECT 1)".toList "SELECT 1".toList ::
        read (" s ON " ++ condition ++ " LEFT JOIN c USING (k) WHERE a.y = 2"), []⟩
    3 ≤ 45 ∧ 45 ≤ l.items.length ∧ ∃ r,
      References.parse maxNesting 2 3 (l.itemsIn 3 45) l.items[45]? = .ok r ∧ r.Fills l ⟨3, 45⟩ := by
  intro read condition l
  have hstop : 45 ≤ l.items.length := by decide +kernel
  obtain ⟨r, hr, -⟩ : ∃ r, References.parse maxNesting 2 3 (l.itemsIn 3 45) l.items[45]? = .ok r ∧
      True := exists_ok_of_any (by decide +kernel)
  exact ⟨by decide, hstop, r, hr, References.parse_fills (by decide) hstop hr⟩

end SoftDelete
