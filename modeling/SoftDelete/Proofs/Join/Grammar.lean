import SoftDelete.Join.Reading.References
import SoftDelete.Proofs.Sql.Level

namespace SoftDelete

open Reading

theorem Item.kind?_of_hasKind {i : Item} {kind : Token.Kind} (h : i.hasKind kind = true) :
    i.kind? = some kind := by
  simpa [hasKind] using h

theorem hasKind_of_mark? {mark : Token.Kind} {i : Item} {u : Unit} (h : mark? mark i = some u) :
    i.hasKind mark = true := by
  unfold mark? at h
  split at h
  · assumption
  · cases h

def Settles (items : List Item) : Prop :=
  ∃ front i, items = front ++ [i] ∧ i.kind? ≠ some .operator

namespace Settles

variable {items : List Item}

theorem one {i : Item} (h : i.kind? ≠ some .operator) : Settles [i] :=
  ⟨[], i, rfl, h⟩

theorem append {more : List Item} (h : Settles more) (items : List Item) :
    Settles (items ++ more) := by
  obtain ⟨front, i, rfl, hi⟩ := h
  exact ⟨items ++ front, i, by simp, hi⟩

theorem cons (h : Settles items) (i : Item) : Settles (i :: items) :=
  h.append [i]

theorem of_hasKind {i : Item} {kind : Token.Kind} (h : i.hasKind kind = true)
    (hkind : kind ≠ .operator) : Settles [i] := by
  exact .one (by simp [Item.kind?_of_hasKind h, hkind])

end Settles

theorem Item.freeName?_eq_some {i : Item} {text : Text} (h : i.freeName? = some text) :
    ∃ t, i = .token t ∧ t.canName = true ∧ t.text = text := by
  cases i with
  | subselect gap source body => cases h
  | token t =>
      obtain ⟨gap, kind, source⟩ := t
      simp only [freeName?, kind?] at h
      split at h
      · rename_i hkind
        cases hkind
        exact ⟨_, rfl, rfl, Option.some.inj h⟩
      · rename_i hkind
        cases hkind
        split at h
        · cases h
        · exact ⟨_, rfl, rfl, Option.some.inj h⟩
      · cases h

theorem Item.text_of_freeName? {i : Item} {text : Text} (h : i.freeName? = some text) :
    i.text = text := by
  obtain ⟨t, rfl, -, htext⟩ := freeName?_eq_some h
  exact htext

theorem Item.freeName?_of_spells {i : Item} {word : String} (h : i.spells word = true)
    (hreserved : word.toList ∈ reservedWords) : i.freeName? = none := by
  have hkind := kind?_of_spells h
  cases i with
  | subselect gap text body => cases h
  | token t =>
      have hreads : isReservedWord (Item.token t).text = true :=
        List.any_eq_true.2 ⟨_, hreserved, (Bool.and_eq_true_iff.1 h).2⟩
      rw [freeName?, hkind]
      simp [hreads]

theorem Item.spells_of_freeName? {i : Item} {text : Text} {word : String}
    (h : i.freeName? = some text) (hreserved : word.toList ∈ reservedWords) :
    i.spells word = false := by
  refine Bool.eq_false_iff.2 fun hspells => ?_
  rw [freeName?_of_spells hspells hreserved] at h
  cases h

theorem Settles.of_freeName? {i : Item} {text : Text} (h : i.freeName? = some text) :
    Settles [i] := by
  obtain ⟨t, rfl, hname, -⟩ := Item.freeName?_eq_some h
  refine .one ?_
  intro hkind
  have hkind : t.kind = .operator := Option.some.inj hkind
  simp [Token.canName, hkind] at hname

inductive Linked {α β : Type} (P : α → List Item → Prop) (link? : Item → Option β) :
    List (β × α) → List Item → Prop where
  | nil : Linked P link? [] []
  | cons {i : Item} {b : β} {a : α} {items rest : List Item} {xs : List (β × α)}
      (hlink : link? i = some b) (helement : P a items) (hrest : Linked P link? xs rest) :
      Linked P link? ((b, a) :: xs) (i :: (items ++ rest))

theorem Linked.settles {α β : Type} {P : α → List Item → Prop} {link? : Item → Option β}
    {xs : List (β × α)} {front items : List Item} (hfront : Settles front)
    (hP : ∀ {a items}, P a items → Settles items) (h : Linked P link? xs items) :
    Settles (front ++ items) := by
  induction h generalizing front with
  | nil => simpa using hfront
  | @cons i b a items rest xs hlink helement hrest ih =>
      have hmore := ih (((hP helement).cons i).append front)
      simpa using hmore

def Named (text : Text) (items : List Item) : Prop :=
  ∃ i, items = [i] ∧ i.freeName? = some text

theorem Named.settles {text : Text} {items : List Item} (h : Named text items) : Settles items := by
  obtain ⟨i, rfl, hi⟩ := h
  exact .of_freeName? hi

def NamesBy (mark : Token.Kind) (texts : List Text) (items : List Item) : Prop :=
  ∃ i text xs rest, items = i :: rest ∧ texts = text :: xs.map Prod.snd ∧
    i.freeName? = some text ∧ Linked Named (mark? mark) xs rest

theorem NamesBy.settles {mark : Token.Kind} {texts : List Text} {items : List Item}
    (h : NamesBy mark texts items) : Settles items := by
  obtain ⟨i, text, xs, rest, rfl, rfl, hi, hrest⟩ := h
  exact hrest.settles (.of_freeName? hi) Named.settles

inductive ConditionPart where
  | operand (value : Operand)
  | operands (values : List Operand)
  | term (c : Condition)
  | condition (c : Condition)

def SpelledBy (words : List String) (items : List Item) : Prop :=
  startsWithWords words items = true ∧ items.length = words.length

def Compares (op : Comparator) (items : List Item) : Prop :=
  (∃ i, items = [i] ∧ i.hasKind .operator = true ∧ Comparator.ofOperator? i.text = some op) ∨
    ∃ form ∈ Comparator.forms, form.2 = op ∧ SpelledBy form.1 items

theorem Item.spells_of_constant {i : Item} (hi : i.hasKind .word = true)
    (hword : constantWords.any (Text.sameWord i.text) = true) :
    ∃ word ∈ ["NULL", "TRUE", "FALSE", "UNKNOWN"], i.spells word = true := by
  obtain ⟨constant, hconstant, hsame⟩ := List.any_eq_true.1 hword
  obtain ⟨word, hmem, rfl⟩ := List.mem_map.1 hconstant
  refine ⟨word, hmem, ?_⟩
  cases i with
  | subselect gap text body => cases hi
  | token t => exact Bool.and_eq_true_iff.2 ⟨by simpa [hasKind, kind?] using hi, hsame⟩

def Item.isCallee (i : Item) : Bool :=
  i.hasKind (.quoted .backtick) ||
    (i.hasKind .word && !constantWords.any (Text.sameWord i.text))

inductive Derives : ConditionPart → List Item → Prop where
  | subselect {gap text body : Text} : Derives (.operand .subselect) [.subselect gap text body]
  | number {i : Item} (hi : i.hasKind .number = true) : Derives (.operand (.literal i.text)) [i]
  | quoted {i : Item} {q : Quote} (hq : q ≠ .backtick) (hi : i.hasKind (.quoted q) = true) :
      Derives (.operand (.literal i.text)) [i]
  | constant {i : Item} (hi : i.hasKind .word = true)
      (hword : constantWords.any (Text.sameWord i.text) = true) :
      Derives (.operand (.literal (i.text.map Char.toUpper))) [i]
  | param {i : Item} (hi : i.hasKind .param = true) : Derives (.operand .param) [i]
  | signed {i j : Item} (hi : i.hasKind .operator = true)
      (hsign : i.text = ['-'] ∨ i.text = ['+']) (hj : j.hasKind .number = true) :
      Derives (.operand (.literal (i.text ++ j.text))) [i, j]
  | column {texts : List Text} {items : List Item} (h : NamesBy .dot texts items) :
      Derives (.operand (.column texts)) items
  | call {i opening closing : Item} {text : Text} {args rest : List Item}
      (hi : i.freeName? = some text) (hcallee : i.isCallee = true)
      (hopening : opening.hasKind .lparen = true)
      (hargs : enclosed? Item.kind? 0 (args ++ closing :: rest) = some (args, closing, rest)) :
      Derives (.operand (.call text (outputOf args))) (i :: opening :: (args ++ [closing]))
  | list {opening closing : Item} {values : List Operand} {items : List Item}
      (hopening : opening.hasKind .lparen = true) (hvalues : Derives (.operands values) items)
      (hclosing : closing.hasKind .rparen = true) :
      Derives (.operand (.list values)) (opening :: (items ++ [closing]))
  | one {value : Operand} {items : List Item} (h : Derives (.operand value) items) :
      Derives (.operands [value]) items
  | more {comma : Item} {value : Operand} {values : List Operand} {items rest : List Item}
      (h : Derives (.operand value) items) (hcomma : comma.hasKind .comma = true)
      (hrest : Derives (.operands values) rest) :
      Derives (.operands (value :: values)) (items ++ comma :: rest)
  | compare {lhs rhs : Operand} {op : Comparator} {left middle right : List Item}
      (hlhs : Derives (.operand lhs) left) (hop : Compares op middle)
      (hrhs : Derives (.operand rhs) right) :
      Derives (.term (.compare lhs op rhs)) (left ++ (middle ++ right))
  | not {i : Item} {c : Condition} {items : List Item} (hi : i.spells "NOT" = true)
      (h : Derives (.term c) items) : Derives (.term (.not c)) (i :: items)
  | group {opening closing : Item} {c : Condition} {items : List Item}
      (hopening : opening.hasKind .lparen = true) (h : Derives (.condition c) items)
      (hclosing : closing.hasKind .rparen = true) :
      Derives (.term (.group c)) (opening :: (items ++ [closing]))
  | single {c : Condition} {items : List Item} (h : Derives (.term c) items) :
      Derives (.condition c) items
  | connect {c d : Condition} {i : Item} {k : Connective} {items rest : List Item}
      (h : Derives (.condition c) items) (hi : Connective.ofItem? i = some k)
      (hrest : Derives (.term d) rest) :
      Derives (.condition (k.join c d)) (items ++ i :: rest)

theorem SpelledBy.token {words : List String} {items : List Item} (h : SpelledBy words items)
    {i : Item} (hi : i ∈ items) : ∃ t, i = .token t ∧ t.kind = .word ∧
      ∃ word ∈ words, t.spells word = true := by
  induction words generalizing items with
  | nil =>
      obtain rfl := List.eq_nil_of_length_eq_zero h.2
      cases hi
  | cons word words ih =>
      obtain ⟨hstarts, hlen⟩ := h
      cases items with
      | nil => cases hlen
      | cons j items =>
          simp only [startsWithWords, Bool.and_eq_true] at hstarts
          rcases List.mem_cons.1 hi with rfl | hi
          · cases i with
            | token t =>
                exact ⟨t, rfl, Token.kind_of_spells hstarts.1, word, by simp, hstarts.1⟩
            | subselect gap text body => cases hstarts.1
          · obtain ⟨t, ht, hkind, w, hw, hspells⟩ := ih ⟨hstarts.2, Nat.succ.inj hlen⟩ hi
            exact ⟨t, ht, hkind, w, List.mem_cons_of_mem word hw, hspells⟩

theorem Derives.settles {p : ConditionPart} {items : List Item} (h : Derives p items) :
    Settles items := by
  induction h with
  | subselect => exact .one (by simp [Item.kind?])
  | number hi | quoted _ hi | constant hi | param hi => exact .of_hasKind hi (by simp)
  | @signed i j hi _ hj => exact (Settles.of_hasKind hj (by simp)).cons i
  | column h => exact h.settles
  | @call i opening closing text args rest hi _ hopening hargs =>
      have hclosing : Settles [closing] := .one (by simp [kind_of_enclosed? hargs])
      exact ((hclosing.append args).cons opening).cons i
  | @list opening closing values items hopening hvalues hclosing ih =>
      exact ((Settles.of_hasKind hclosing (by simp)).append items).cons opening
  | @group opening closing c items hopening h hclosing ih =>
      exact ((Settles.of_hasKind hclosing (by simp)).append items).cons opening
  | one h ih | single h ih => exact ih
  | @more comma value values items rest h hcomma hrest ih ihrest =>
      exact (ihrest.cons comma).append items
  | @connect c d i k items rest h hi hrest ih ihrest => exact (ihrest.cons i).append items
  | @compare lhs rhs op left middle right hlhs hop hrhs ihl ihr =>
      exact (ihr.append middle).append left
  | @not i c items hi h ih => exact ih.cons i

inductive TableName : Option Text → List Item → Prop where
  | subselect {gap text body : Text} : TableName none [.subselect gap text body]
  | named {parts : List Text} {items : List Item} (h : NamesBy .dot parts items) :
      TableName (some (Text.joined "." parts)) items

inductive AliasName : Option Text → List Item → Prop where
  | none : AliasName none []
  | bare {i : Item} {text : Text} (hi : i.freeName? = some text) : AliasName (some text) [i]
  | as {keyword i : Item} {text : Text} (hkeyword : keyword.spells "AS" = true)
      (hi : i.freeName? = some text) : AliasName (some text) [keyword, i]

structure Reference.Spans (r : Reference) (start : Nat) (items : List Item) : Prop where
  range : r.items = ⟨start, start + items.length⟩
  derives : ∃ table tail, items = table ++ tail ∧ TableName r.name table ∧
    AliasName r.aliasName tail

def Join.Kind.Spans (kind : Join.Kind) (items : List Item) : Prop :=
  (kind = .comma ∧ ∃ t, items = [.token t] ∧ t.kind = .comma) ∨
    (kind ≠ .comma ∧ ∃ words, (kind, words) ∈ Join.Kind.forms ∧ SpelledBy words items)

theorem Join.Kind.Spans.ne_nil {kind : Join.Kind} {items : List Item} (h : kind.Spans items) :
    items ≠ [] := by
  rcases h with ⟨-, t, rfl, -⟩ | ⟨-, words, hform, -, hlen⟩
  · simp
  · have hforms : ∀ form ∈ Join.Kind.forms, form.2 ≠ [] := by decide
    rintro rfl
    exact hforms _ hform (List.eq_nil_of_length_eq_zero hlen.symm)

theorem Join.Kind.Spans.tokens {kind : Join.Kind} {items : List Item} (h : kind.Spans items) :
    ∀ i ∈ items, i.isSubselect = false := by
  intro i hi
  rcases h with ⟨-, t, rfl, -⟩ | ⟨-, words, -, hwords⟩
  · obtain rfl := List.mem_singleton.1 hi
    rfl
  · obtain ⟨t, rfl, -⟩ := hwords.token hi
    rfl

inductive Join.Clause.Spans : Nat → List Item → Option Join.Clause → Prop where
  | none {start : Nat} : Spans start [] none
  | on {start : Nat} {i : Item} {cond : List Item} {tree : Condition}
      (hon : i.spells "ON") (hcond : Derives (.condition tree) cond) :
      Spans start (i :: cond) (some (.on tree ⟨start + 1, start + 1 + cond.length⟩))
  | using {start : Nat} {i opening closing : Item} {names : List Item} {columns : List Text}
      (husing : i.spells "USING") (hopening : opening.hasKind .lparen = true)
      (hnames : NamesBy .comma columns names) (hclosing : closing.hasKind .rparen = true) :
      Spans start (i :: opening :: (names ++ [closing])) (some (.using columns))

inductive Join.Spans : Nat → List Item → Join → Prop where
  | intro {start : Nat} {keyword table own : List Item} {j : Join}
      (hkeyword : j.kind.Spans keyword)
      (hkeywords : j.keywordItems = ⟨start, start + keyword.length⟩)
      (htable : j.table.Spans (start + keyword.length) table)
      (hown : Join.Clause.Spans (start + (keyword.length + table.length)) own j.clause)
      (hitems : j.items = ⟨start, start + (keyword ++ table ++ own).length⟩) :
      Spans start (keyword ++ table ++ own) j

inductive Join.ListSpans : Nat → List Item → List Join → Prop where
  | nil {start : Nat} : ListSpans start [] []
  | cons {start : Nat} {items rest : List Item} {j : Join} {js : List Join}
      (hfirst : j.Spans start items) (hrest : ListSpans (start + items.length) rest js) :
      ListSpans start (items ++ rest) (j :: js)

structure References.Spans (r : References) (start : Nat) (head rest : List Item) : Prop where
  first : r.first.Spans start head
  joins : Join.ListSpans (start + head.length) rest r.joins

theorem Settles.ne_nil {items : List Item} (h : Settles items) : items ≠ [] := by
  obtain ⟨front, i, rfl, -⟩ := h
  simp

theorem TableName.settles {name : Option Text} {items : List Item} (h : TableName name items) :
    Settles items := by
  cases h with
  | subselect => exact .one (by simp [Item.kind?])
  | named h => exact h.settles

theorem Reference.Spans.settles {r : Reference} {start : Nat} {items : List Item}
    (h : r.Spans start items) : Settles items := by
  obtain ⟨table, tail, rfl, htable, htail⟩ := h.derives
  generalize r.aliasName = aliasName at htail
  cases htail with
  | none => simpa using htable.settles
  | bare hi => exact (Settles.of_freeName? hi).append table
  | @as keyword i text hkeyword hi => exact ((Settles.of_freeName? hi).cons keyword).append table

theorem Join.Spans.settles {start : Nat} {items : List Item} {j : Join} (h : j.Spans start items) :
    Settles items := by
  obtain @⟨keyword, table, own, _, -, -, htable, hown, -⟩ := h
  generalize j.clause = clause at hown
  cases hown with
  | none =>
      rw [List.append_nil]
      exact htable.settles.append keyword
  | @on i cond tree _ hcond => exact (hcond.settles.cons i).append (keyword ++ table)
  | @«using» i opening closing names columns _ _ _ hclosing =>
      have hend : Settles [closing] := .of_hasKind hclosing (by simp)
      exact (((hend.append names).cons opening).cons i).append (keyword ++ table)

def NamedIn (items : List Item) (text : Text) : Prop :=
  ∃ names : List Token, names ≠ [] ∧
    (∀ t ∈ names, .token t ∈ items ∧ t.canName = true) ∧
    text = Text.joined "." (names.map Token.text)

theorem NamedIn.mono {items more : List Item} {text : Text} (h : NamedIn items text)
    (hsub : ∀ i ∈ items, i ∈ more) : NamedIn more text := by
  obtain ⟨names, hne, hnames, htext⟩ := h
  exact ⟨names, hne, fun t ht => ⟨hsub _ (hnames t ht).1, (hnames t ht).2⟩, htext⟩

theorem namedIn_of_freeName? {i : Item} {text : Text} {items : List Item}
    (hi : i.freeName? = some text) (hmem : i ∈ items) : NamedIn items text := by
  obtain ⟨t, rfl, hname, rfl⟩ := Item.freeName?_eq_some hi
  exact ⟨[t], by simp, by simp [hmem, hname], by simp [Text.joined]⟩

theorem Linked.exists_names {β : Type} {link? : Item → Option β} {xs : List (β × Text)}
    {items : List Item} (h : Linked Named link? xs items) :
    ∃ names : List Token, (∀ t ∈ names, .token t ∈ items ∧ t.canName = true) ∧
      xs.map Prod.snd = names.map Token.text := by
  induction h with
  | nil => exact ⟨[], by simp, rfl⟩
  | @cons i b text items rest xs _ hname _ ih =>
      obtain ⟨j, rfl, hj⟩ := hname
      obtain ⟨t, rfl, hcan, rfl⟩ := Item.freeName?_eq_some hj
      obtain ⟨names, hnames, hmap⟩ := ih
      refine ⟨t :: names, fun u hu => ?_, by simp [hmap]⟩
      rcases List.mem_cons.1 hu with rfl | hu
      · exact ⟨by simp, hcan⟩
      · exact ⟨by simp [(hnames u hu).1], (hnames u hu).2⟩

theorem TableName.namedIn {text : Text} {items : List Item} (h : TableName (some text) items) :
    NamedIn items text := by
  obtain _ | ⟨i, head, xs, rest, rfl, rfl, hi, hrest⟩ := h
  obtain ⟨t, rfl, hcan, rfl⟩ := Item.freeName?_eq_some hi
  obtain ⟨names, hnames, hmap⟩ := hrest.exists_names
  refine ⟨t :: names, by simp, fun u hu => ?_, by simp [hmap]⟩
  rcases List.mem_cons.1 hu with rfl | hu
  · exact ⟨by simp, hcan⟩
  · exact ⟨List.mem_cons_of_mem _ (hnames u hu).1, (hnames u hu).2⟩

theorem Reference.Spans.namedIn {r : Reference} {start : Nat} {items : List Item} {target : Text}
    (h : r.Spans start items) (htarget : r.visibleName = some target) : NamedIn items target := by
  obtain ⟨table, tail, rfl, htable, htail⟩ := h.derives
  unfold visibleName at htarget
  generalize r.aliasName = aliasName at htail htarget
  cases htail with
  | none =>
      have hname : r.name = some target := by simpa using htarget
      rw [hname] at htable
      exact htable.namedIn.mono fun i hi => List.mem_append_left _ hi
  | bare hi | as _ hi =>
      obtain rfl := Option.some.inj htarget
      exact namedIn_of_freeName? hi (by simp)

theorem Join.ListSpans.exists_spans {start : Nat} {items : List Item} {js : List Join}
    (h : Join.ListSpans start items js) {j : Join} (hj : j ∈ js) :
    ∃ front used back, items = front ++ (used ++ back) ∧ j.Spans (start + front.length) used := by
  induction h with
  | nil => cases hj
  | @cons start items rest k js hfirst _ ih =>
      rcases List.mem_cons.1 hj with rfl | hj
      · exact ⟨[], items, rest, rfl, hfirst⟩
      · obtain ⟨front, used, back, rfl, hspans⟩ := ih hj
        exact ⟨items ++ front, used, back, by simp, by simpa [Nat.add_assoc] using hspans⟩

theorem Join.ListSpans.exists_table {start : Nat} {items : List Item} {js : List Join}
    (h : Join.ListSpans start items js) {j : Join} (hj : j ∈ js) :
    ∃ front table back n, items = front ++ (table ++ back) ∧ j.table.Spans n table := by
  obtain ⟨front, used, back, rfl, hspans⟩ := h.exists_spans hj
  obtain @⟨keyword, table, own, _, -, -, htable, -, -⟩ := hspans
  exact ⟨front ++ keyword, table, own ++ back, _, by simp, htable⟩

theorem Join.ListSpans.namedIn {start : Nat} {items : List Item} {js : List Join}
    (h : Join.ListSpans start items js) {j : Join} (hj : j ∈ js) {target : Text}
    (htarget : j.table.visibleName = some target) : NamedIn items target := by
  obtain ⟨front, table, back, n, rfl, htable⟩ := h.exists_table hj
  exact (htable.namedIn htarget).mono fun i hi => by simp [hi]

end SoftDelete
