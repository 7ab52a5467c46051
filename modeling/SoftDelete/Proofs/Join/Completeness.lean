import SoftDelete.Proofs.Join.Acceptance
import SoftDelete.Proofs.Sql.Parentheses

namespace SoftDelete

open Reading

mutual

def Operand.nesting : Operand → Nat
  | .list values => Operand.listNesting values + 1
  | _ => 0

def Operand.listNesting : List Operand → Nat
  | [] => 0
  | value :: values => max value.nesting (Operand.listNesting values)

end

def Condition.nesting : Condition → Nat
  | .compare lhs _ rhs => max lhs.nesting rhs.nesting
  | .not inner | .group inner => inner.nesting + 1
  | .and lhs rhs | .or lhs rhs => max lhs.nesting rhs.nesting

mutual

/-- No name of several parts begins with the word of a constant. -/
def Operand.isPlain : Operand → Bool
  | .column (first :: _ :: _) => !constantWords.any (Text.sameWord first)
  | .list values => Operand.arePlain values
  | _ => true

def Operand.arePlain : List Operand → Bool
  | [] => true
  | value :: values => value.isPlain && Operand.arePlain values

end

def Operand.isList : Operand → Bool
  | .list _ => true
  | _ => false

/-- All operands are plain, and no comparison has a value list on its left. -/
def Condition.isPlain : Condition → Bool
  | .compare lhs _ rhs => !lhs.isList && (lhs.isPlain && rhs.isPlain)
  | .not inner | .group inner => inner.isPlain
  | .and lhs rhs | .or lhs rhs => lhs.isPlain && rhs.isPlain

def isLiteral (text : Text) : Bool :=
  constantWords.any (Text.sameWord text) ||
    [Quote.single, .double].any fun q => text.head? == some q.mark

mutual

def Operand.isClear : Operand → Bool
  | .column [text] => !isLiteral text
  | .list values => Operand.areClear values
  | _ => true

def Operand.areClear : List Operand → Bool
  | [] => true
  | value :: values => value.isClear && Operand.areClear values

end

def Condition.isClear : Condition → Bool
  | .compare lhs _ rhs => lhs.isClear && rhs.isClear
  | .not inner | .group inner => inner.isClear
  | .and lhs rhs | .or lhs rhs => lhs.isClear && rhs.isClear

def ConditionPart.isClear : ConditionPart → Bool
  | .operand value => value.isClear
  | .operands values => Operand.areClear values
  | .term c | .condition c => c.isClear

def Item.ShowsQuote (i : Item) : Prop :=
  ∀ q, i.hasKind (.quoted q) = true ↔ i.text.head? = some q.mark

theorem Item.isCallee_of_clear {i : Item} {text : Text} (hi : i.freeName? = some text)
    (hclear : isLiteral text = false) (hshows : i.ShowsQuote) : i.isCallee = true := by
  obtain ⟨t, rfl, hname, rfl⟩ := freeName?_eq_some hi
  obtain ⟨hconstant, hmarks⟩ := Bool.or_eq_false_iff.1 hclear
  cases hkind : t.kind with
  | word => simp [isCallee, hasKind, kind?, hkind, Item.text, hconstant]
  | quoted q =>
      have hquoted : (Item.token t).hasKind (.quoted q) = true := by simp [hasKind, kind?, hkind]
      have hmark : t.text.head? = some q.mark := (hshows q).1 hquoted
      cases q with
      | backtick => simp [isCallee, hquoted]
      | single | double => simp [hmark] at hmarks
  | _ => simp [Token.canName, hkind] at hname

theorem Compares.head {op : Comparator} {items : List Item} (h : Compares op items)
    (rest : List Item) : FollowedBy Item.EndsOperand (items ++ rest) := by
  rcases h with ⟨i, rfl, hi, -⟩ | ⟨form, hform, -, hspelled⟩
  · exact .cons (.of_hasKind hi (by simp) (by simp)) rest
  · have hne : ∀ form ∈ Comparator.forms, form.1 ≠ [] := by decide
    obtain ⟨word, words, hwords⟩ := List.exists_cons_of_ne_nil (hne form hform)
    obtain ⟨i, later, rfl, hi⟩ := SpelledBy.exists_head (hwords ▸ hspelled)
    exact .cons (.of_spells hi) _

theorem Item.hasKind_of_freeName? {i : Item} {text : Text} {kind : Token.Kind}
    (h : i.freeName? = some text) (hword : kind ≠ .word) (hquoted : ∀ q, kind ≠ .quoted q) :
    i.hasKind kind = false := by
  refine Bool.eq_false_iff.2 fun hkind => ?_
  unfold freeName? at h
  rw [kind?_of_hasKind hkind] at h
  split at h
  · exact hquoted _ (Option.some.inj ‹_›)
  · exact hword (Option.some.inj ‹_›)
  · cases h

theorem Derives.head {value : Operand} {items : List Item} (h : Derives (.operand value) items) :
    ∃ i later, items = i :: later ∧ i.spells "NOT" = false ∧
      (value.isList = false → i.hasKind .lparen = false) := by
  have hmark : ∀ {i : Item} {kind : Token.Kind}, i.hasKind kind = true → kind ≠ .word →
      i.spells "NOT" = false := fun hi hkind =>
    Item.spells_eq_false (by rw [Item.kind?_of_hasKind hi]; simpa using hkind) _
  have hname : ∀ {i : Item} {text : Text}, i.freeName? = some text →
      i.spells "NOT" = false ∧ i.hasKind .lparen = false := fun hi =>
    ⟨Item.spells_of_freeName? hi (by decide), Item.hasKind_of_freeName? hi (by simp) (by simp)⟩
  cases h with
  | subselect => exact ⟨_, [], rfl, rfl, fun _ => rfl⟩
  | number hi | quoted _ hi | param hi =>
      exact ⟨_, [], rfl, hmark hi (by simp), fun _ => Item.hasKind_eq_false hi (by simp)⟩
  | constant hi hword =>
      obtain ⟨word, hmem, hspells⟩ := Item.spells_of_constant hi hword
      have hwords : ∀ word ∈ ["NULL", "TRUE", "FALSE", "UNKNOWN"],
          Text.sameWord word.toList "NOT".toList = false := by decide
      exact ⟨_, [], rfl, (Item.spells_eq hspells "NOT").trans (hwords word hmem),
        fun _ => Item.hasKind_eq_false hi (by simp)⟩
  | signed hi _ _ =>
      exact ⟨_, _, rfl, hmark hi (by simp), fun _ => Item.hasKind_eq_false hi (by simp)⟩
  | column h =>
      obtain ⟨i, text, xs, rest, rfl, -, hi, -⟩ := h
      exact ⟨i, rest, rfl, (hname hi).1, fun _ => (hname hi).2⟩
  | call hi _ _ _ => exact ⟨_, _, rfl, (hname hi).1, fun _ => (hname hi).2⟩
  | list hopening _ _ => exact ⟨_, _, rfl, hmark hopening (by simp), nofun⟩

namespace Reading

variable {sure : Prop} {after : Option Item} {room : Nat}

theorem comparison_accepts {lhs rhs : Operand} {op : Comparator} {left middle right : List Item}
    (hleft : Accepts sure Item.EndsOperand (operand after room) lhs left)
    (hop : Compares op middle) (hnot : FollowedBy (fun i => i.spells "NOT" = false) right)
    (hright : Accepts sure Item.EndsOperand (operand after room) rhs right) (hne : right ≠ []) :
    Accepts sure Item.EndsOperand (comparison after room) (.compare lhs op rhs)
      (left ++ (middle ++ right)) := by
  intro rest hrest
  obtain ⟨lhs', hlhs, hfirst⟩ := hleft (middle ++ (right ++ rest)) (hop.head _)
  obtain ⟨rhs', hrhs, hlast⟩ := hright rest hrest
  have hfollow : FollowedBy (fun i => i.spells "NOT" = false) (right ++ rest) := by
    obtain ⟨i, later, rfl⟩ := List.exists_cons_of_ne_nil hne
    exact .cons (hnot i rfl) _
  have hcompared := comparator_accepts hop hfollow
  refine ⟨.compare lhs' op rhs', fun hsure => by rw [hlhs hsure, hrhs hsure], ?_⟩
  simp only [comparison, List.append_assoc, hfirst, bind, Except.bind, List.drop_left, hcompared,
    ← List.drop_drop, hlast, List.length_append, Nat.add_assoc]

theorem term_of_comparison {i : Item} (hnot : i.spells "NOT" = false)
    (hlparen : i.hasKind .lparen = false) (rest : List Item) :
    term after room (i :: rest) = comparison after room (i :: rest) := by
  unfold term
  simp only [hnot, hlparen, Bool.false_eq_true, if_false]

theorem not_accepts {i : Item} {inner : Condition} {items : List Item}
    (hi : i.spells "NOT" = true) (h : Accepts sure Item.EndsOperand (term after room) inner items) :
    Accepts sure Item.EndsOperand (term after (room + 1)) (.not inner) (i :: items) := by
  intro rest hrest
  obtain ⟨c, hc, hread⟩ := h rest hrest
  refine ⟨.not c, fun hsure => by rw [hc hsure], ?_⟩
  rw [List.cons_append]
  unfold term
  simp only [hi, if_true, hread, bind, Except.bind, List.length_cons, Nat.add_comm]

theorem group_accepts {P : Item → Prop} {opening closing : Item} {inner : Condition}
    {items : List Item} (hopening : opening.hasKind .lparen = true)
    (h : Accepts sure Item.EndsCondition (connected (term after room)) inner items)
    (hclosing : closing.hasKind .rparen = true) :
    Accepts sure P (term after (room + 1)) (.group inner) (opening :: (items ++ [closing])) := by
  intro rest _
  have hends : closing.EndsCondition := .of_hasKind hclosing (by simp)
  obtain ⟨c, hc, hread⟩ := h (closing :: rest) (.cons hends rest)
  have hnot : opening.spells "NOT" = false :=
    Item.spells_eq_false (by simp [Item.kind?_of_hasKind hopening]) _
  refine ⟨.group c, fun hsure => by rw [hc hsure], ?_⟩
  rw [List.cons_append, List.append_assoc, List.singleton_append]
  unfold term
  simp only [hnot, hopening, Bool.false_eq_true, if_false, if_true, hread, bind, Except.bind,
    List.drop_left, expect_of_hasKind hclosing]
  simp [Nat.add_comm, Nat.add_left_comm]

theorem connected_accepts {xs : List (Connective × Condition)} {c : Condition}
    {first more : List Item} (hfirst : Accepts sure Item.EndsOperand (term after room) c first)
    (hmore : Linked (Accepts sure Item.EndsOperand (term after room)) Connective.ofItem? xs more) :
    Accepts sure Item.EndsCondition (connected (term after room))
      (xs.foldl (fun lhs step => step.1.join lhs step.2) c) (first ++ more) := by
  intro rest hrest
  obtain ⟨ys, hys, hmany⟩ := linked_accepts Connective.endsOperand hmore rest
    (hrest.imp fun i hi => ⟨hi.connective, hi.toEndsOperand⟩)
  have hfollow : FollowedBy Item.EndsOperand (more ++ rest) := by
    refine FollowedBy.append ?_ (hrest.imp fun _ => Item.EndsCondition.toEndsOperand)
    cases hmore with
    | nil => exact nofun
    | cons hi => exact .cons (Connective.endsOperand hi) _
  obtain ⟨c', hc, hone⟩ := hfirst _ hfollow
  refine ⟨ys.foldl (fun lhs step => step.1.join lhs step.2) c', fun hsure => ?_, ?_⟩
  · rw [hc hsure, hys hsure]
  · simp only [connected, List.append_assoc, hone, bind, Except.bind, List.drop_left, hmany,
      List.length_append]

end Reading

theorem Linked.snoc {α β : Type} {P : α → List Item → Prop} {link? : Item → Option β}
    {xs : List (β × α)} {items last : List Item} {i : Item} {b : β} {a : α}
    (h : Linked P link? xs items) (hi : link? i = some b) (hlast : P a last) :
    Linked P link? (xs ++ [(b, a)]) (items ++ i :: last) := by
  induction h with
  | nil => simpa using Linked.cons hi hlast .nil
  | cons hlink helement _ ih =>
      rw [List.cons_append, List.cons_append, List.append_assoc]
      exact .cons hlink helement ih

def ConditionPart.Accepted (sure : Prop) (after : Option Item) (room : Nat) :
    ConditionPart → List Item → Prop
  | .operand value, items => value.isPlain = true → value.nesting ≤ room →
      Accepts sure Item.EndsOperand (Reading.operand after room) value items
  | .operands values, items => Operand.arePlain values = true →
      Operand.listNesting values ≤ room →
      Accepts sure Item.EndsValues (separated (Reading.operand after room) .comma) values items
  | .term c, items => c.isPlain = true → c.nesting ≤ room →
      Accepts sure Item.EndsOperand (Reading.term after room) c items
  | .condition c, items => c.isPlain = true → c.nesting ≤ room →
      ∃ d first xs more, items = first ++ more ∧
        c = xs.foldl (fun lhs step => step.1.join lhs step.2) d ∧
        Accepts sure Item.EndsOperand (Reading.term after room) d first ∧
        Linked (Accepts sure Item.EndsOperand (Reading.term after room))
          Connective.ofItem? xs more

structure Shown (after : Option Item) (items : List Item) : Prop where
  shows : ∀ i ∈ items, i.ShowsQuote
  dotless : after.any (Item.hasKind · .dot) = false

theorem Shown.mono {after : Option Item} {items inner : List Item} (h : Shown after items)
    (hsub : ∀ i ∈ inner, i ∈ items) : Shown after inner :=
  ⟨fun i hi => h.shows i (hsub i hi), h.dotless⟩

structure Certain (after : Option Item) (clear : Bool) (items : List Item) : Prop
    extends Shown after items where
  clear : clear = true

theorem Certain.part {after : Option Item} {clear clear' : Bool} {items inner : List Item}
    (h : Certain after clear items) (hclear : clear' = true) (hsub : ∀ i ∈ inner, i ∈ items) :
    Certain after clear' inner :=
  ⟨h.toShown.mono hsub, hclear⟩

theorem Connective.join_nesting (k : Connective) (c d : Condition) :
    (k.join c d).nesting = max c.nesting d.nesting := by
  cases k <;> rfl

theorem Connective.join_isPlain (k : Connective) (c d : Condition) :
    (k.join c d).isPlain = (c.isPlain && d.isPlain) := by
  cases k <;> rfl

theorem Connective.join_isClear (k : Connective) (c d : Condition) :
    (k.join c d).isClear = (c.isClear && d.isClear) := by
  cases k <;> rfl

theorem Derives.accepted {p : ConditionPart} {items : List Item} (h : Derives p items)
    {sure : Prop} {after : Option Item} (hsure : sure → Certain after p.isClear items) (room : Nat) :
    p.Accepted sure after room items := by
  induction h generalizing room with
  | subselect => exact fun _ _ => .of_eq fun rest _ => by unfold operand; rfl
  | number hi | param hi =>
      exact fun _ _ => .of_eq fun rest _ => by
        unfold operand
        simp [Item.kind?_of_hasKind hi]
  | quoted hq hi => exact fun _ _ => quoted_accepts hi hq (fun hs => (hsure hs).dotless) room
  | constant hi hword =>
      exact fun _ _ => .of_eq fun rest _ => operand_of_constant hi hword after room rest
  | @signed i j hi hsign hj =>
      refine fun _ _ => .of_eq fun rest _ => ?_
      unfold operand
      rcases hsign with htext | htext <;> simp [Item.kind?_of_hasKind hi, htext, hj]
  | @column texts _ h =>
      intro hplain _
      have hnames := h
      obtain ⟨i, text, xs, later, rfl, rfl, hi, hlater⟩ := h
      refine column_accepts hnames (fun _ hconstant => ?_) (fun hs hnil => ?_) room
      · cases hlater with
        | nil => rfl
        | cons => simp [Operand.isPlain, ← Item.text_of_freeName? hi, hconstant] at hplain
      · subst hnil
        cases hlater
        have hclear : isLiteral text = false := by
          simpa [ConditionPart.isClear, Operand.isClear] using (hsure hs).clear
        exact Item.isCallee_of_clear hi hclear ((hsure hs).shows i (by simp))
  | @call i opening closing text args later hi hcallee hopening hargs =>
      refine fun _ _ => .of_eq fun rest _ => ?_
      have hcall := namedOperand_call hi hopening (enclosed?_of_append hargs rest)
      have hsplit : i :: opening :: (args ++ [closing]) ++ rest =
          i :: opening :: (args ++ closing :: rest) := by simp
      rw [hsplit, operand_of_isCallee hcallee, hcall]
      simp
      omega
  | list hopening _ hclosing ih =>
      intro hplain hnesting
      cases room with
      | zero => cases hnesting
      | succ room =>
          have hvalues := ih (fun hs => (hsure hs).part (hsure hs).clear (by simp_all)) room hplain
            (Nat.le_of_succ_le_succ hnesting)
          exact list_accepts hopening hvalues hclosing
  | one _ ih =>
      intro hplain hnesting
      have hvalue := (Bool.and_eq_true_iff.1 hplain).1
      have hclear := fun hs => (Bool.and_eq_true_iff.1 (hsure hs).clear).1
      have hone := ih (fun hs => (hsure hs).part (hclear hs) fun _ hi => hi) room hvalue
        (Nat.le_trans (Nat.le_max_left ..) hnesting)
      exact values_accepts_one hone
  | more _ hcomma _ ih ihrest =>
      intro hplain hnesting
      obtain ⟨hvalue, hvalues⟩ := Bool.and_eq_true_iff.1 hplain
      obtain ⟨hdeep, hdeeper⟩ := Nat.max_le.1 hnesting
      have hclear := fun hs => Bool.and_eq_true_iff.1 (hsure hs).clear
      have hfirst := ih (fun hs => (hsure hs).part (hclear hs).1 (by simp_all)) room hvalue hdeep
      have hmore := ihrest (fun hs => (hsure hs).part (hclear hs).2 (by simp_all)) room hvalues
        hdeeper
      exact values_accepts_more hfirst hcomma hmore
  | @compare lhs rhs op left middle right hlhs hop hrhs ihl ihr =>
      intro hplain hnesting
      obtain ⟨hlist, hplain⟩ := Bool.and_eq_true_iff.1 hplain
      obtain ⟨hleft, hright⟩ := Bool.and_eq_true_iff.1 hplain
      obtain ⟨hdeep, hdeeper⟩ := Nat.max_le.1 hnesting
      have hclear := fun hs => Bool.and_eq_true_iff.1 (hsure hs).clear
      have hfirst := ihl (fun hs => (hsure hs).part (hclear hs).1 (by simp_all)) room hleft hdeep
      have hlast := ihr (fun hs => (hsure hs).part (hclear hs).2 (by simp_all)) room hright hdeeper
      obtain ⟨i, later, rfl, hnot, hlparen⟩ := hlhs.head
      obtain ⟨j, last, rfl, hnot', -⟩ := hrhs.head
      have hcompared := comparison_accepts hfirst hop (.cons hnot' last) hlast (by simp)
      intro rest hrest
      obtain ⟨c, hc, hread⟩ := hcompared rest hrest
      refine ⟨c, hc, ?_⟩
      rw [List.cons_append, List.cons_append] at hread ⊢
      rw [term_of_comparison hnot (hlparen (by simpa using hlist)), hread]
  | not hi _ ih =>
      intro hplain hnesting
      cases room with
      | zero => cases hnesting
      | succ room =>
          have hinner := ih (fun hs => (hsure hs).part (hsure hs).clear (by simp_all)) room hplain
            (Nat.le_of_succ_le_succ hnesting)
          exact not_accepts hi hinner
  | group hopening _ hclosing ih =>
      intro hplain hnesting
      cases room with
      | zero => cases hnesting
      | succ room =>
          obtain ⟨d, first, xs, more, rfl, rfl, hfirst, hmore⟩ :=
            ih (fun hs => (hsure hs).part (hsure hs).clear (by simp_all)) room hplain
              (Nat.le_of_succ_le_succ hnesting)
          exact group_accepts hopening (connected_accepts hfirst hmore) hclosing
  | single _ ih =>
      intro hplain hnesting
      have hterm := ih (fun hs => (hsure hs).part (hsure hs).clear (by simp)) room hplain hnesting
      exact ⟨_, _, [], [], by simp, rfl, hterm, .nil⟩
  | @connect c d i k items later _ hi _ ih ihrest =>
      intro hplain hnesting
      rw [Connective.join_isPlain, Bool.and_eq_true_iff] at hplain
      rw [Connective.join_nesting, Nat.max_le] at hnesting
      have hclear := fun hs => Bool.and_eq_true_iff.1
        ((Connective.join_isClear k c d).symm.trans (hsure hs).clear)
      obtain ⟨e, first, xs, more, rfl, rfl, hfirst, hmore⟩ :=
        ih (fun hs => (hsure hs).part (hclear hs).1 (by simp_all)) room hplain.1 hnesting.1
      have hlast := ihrest (fun hs => (hsure hs).part (hclear hs).2 (by simp_all)) room hplain.2
        hnesting.2
      exact ⟨e, first, xs ++ [(k, d)], more ++ i :: later, by simp, by simp, hfirst,
        hmore.snoc hi hlast⟩

structure Item.EndsReference (i : Item) : Prop extends i.EndsOperand where
  name : i.freeName? = none
  as : i.spells "AS" = false

structure Item.EndsJoin (i : Item) : Prop extends i.EndsReference, i.EndsCondition where
  clause : i.spells "ON" = false ∧ i.spells "USING" = false

theorem Item.EndsReference.of_spells {i : Item} {word : String} (h : i.spells word = true)
    (hreserved : word.toList ∈ reservedWords)
    (hword : Text.sameWord word.toList "AS".toList = false) : i.EndsReference where
  toEndsOperand := .of_spells h
  name := freeName?_of_spells h hreserved
  as := (spells_eq h "AS").trans hword

def furtherWords : List String :=
  ["AS", "ON", "USING", "AND", "OR"]

theorem Item.EndsJoin.of_spells {i : Item} {word : String} (h : i.spells word = true)
    (hreserved : word.toList ∈ reservedWords)
    (hword : ∀ other ∈ furtherWords, Text.sameWord word.toList other.toList = false) :
    i.EndsJoin := by
  have hother : ∀ other ∈ furtherWords, i.spells other = false := fun other hmem =>
    (spells_eq h other).trans (hword other hmem)
  have hreference : i.EndsReference := .of_spells h hreserved (hword "AS" (by decide))
  have hoperator : i.hasKind .operator = false := hasKind_eq_false (hasKind_of_spells h) (by simp)
  exact {
    toEndsReference := hreference
    connective := by
      simp [Connective.ofItem?, hother "AND" (by decide), hother "OR" (by decide), hoperator]
    clause := ⟨hother "ON" (by decide), hother "USING" (by decide)⟩ }

theorem Item.EndsJoin.of_comma {i : Item} (h : i.hasKind .comma = true) : i.EndsJoin := by
  have hspells : ∀ word, i.spells word = false := spells_eq_false (by simp [kind?_of_hasKind h])
  exact {
    toEndsCondition := .of_hasKind h (by simp)
    name := by simp [freeName?, kind?_of_hasKind h]
    as := hspells "AS"
    clause := ⟨hspells "ON", hspells "USING"⟩ }

theorem Join.Kind.Spans.endsJoin {kind : Join.Kind} {items : List Item} (h : kind.Spans items)
    (rest : List Item) : FollowedBy Item.EndsJoin (items ++ rest) := by
  rcases h with ⟨-, t, rfl, ht⟩ | ⟨-, words, hform, hspelled⟩
  · exact .cons (.of_comma (by simp [Item.hasKind, Item.kind?, ht])) rest
  · have hforms : ∀ form ∈ Join.Kind.forms, ∃ word ∈ form.2.head?, word.toList ∈ reservedWords ∧
        ∀ other ∈ furtherWords, Text.sameWord word.toList other.toList = false := by decide
    obtain ⟨word, hhead, hreserved, hword⟩ := hforms _ hform
    obtain ⟨later, rfl⟩ := List.head?_eq_some_iff.1 hhead
    obtain ⟨i, last, rfl, hi⟩ := hspelled.exists_head
    exact .cons (.of_spells hi hreserved hword) _

theorem Join.ListSpans.endsJoin {start : Nat} {items : List Item} {js : List Join}
    (h : Join.ListSpans start items js) : FollowedBy Item.EndsJoin items := by
  cases h with
  | nil => exact nofun
  | cons hfirst _ =>
      obtain ⟨hkeyword, -⟩ := hfirst
      rw [List.append_assoc, List.append_assoc]
      exact hkeyword.endsJoin _

namespace Reading

theorem tableOrSubselect_accepts {name : Option Text} {items : List Item}
    (h : TableName name items) :
    Accepts True (fun i => i.hasKind .dot = false) tableOrSubselect name items := by
  refine .of_eq fun rest hrest => ?_
  cases h with
  | subselect => rfl
  | named h =>
      have hparts := (dotted_accepts h "expected a table name" "expected a name after `.`").eq hrest
      obtain ⟨i, text, xs, later, rfl, -, hi, -⟩ := h
      obtain ⟨t, rfl, -⟩ := Item.freeName?_eq_some hi
      rw [List.cons_append] at hparts ⊢
      simp only [tableOrSubselect, hparts, bind, Except.bind]

theorem aliasName?_accepts {aliasName : Option Text} {items : List Item}
    (h : AliasName aliasName items) :
    Accepts True Item.EndsReference aliasName? aliasName items := by
  refine .of_eq fun rest hrest => ?_
  cases h with
  | none =>
      cases rest with
      | nil => rfl
      | cons i rest =>
          have hi := hrest i rfl
          simp [aliasName?, hi.as, hi.name]
  | @bare i text hi =>
      have has : i.spells "AS" = false := Item.spells_of_freeName? hi (by decide)
      simp [aliasName?, has, hi]
  | @as keyword i text hkeyword hi =>
      simp [aliasName?, hkeyword, name_of_freeName? hi, bind, Except.bind]

theorem reference_accepts {r : Reference} {start : Nat} {items : List Item}
    (h : r.Spans start items) : Accepts True Item.EndsReference (reference start) r items := by
  refine .of_eq fun rest hrest => ?_
  obtain ⟨hrange, table, tail, rfl, htable, htail⟩ := h
  obtain ⟨tableName, aliasName, range⟩ := r
  obtain rfl : range = _ := hrange
  have hfollow : FollowedBy (fun i => i.hasKind .dot = false) (tail ++ rest) := by
    refine FollowedBy.append ?_ (hrest.imp fun _ hi => hi.dot)
    cases htail with
    | none => exact nofun
    | bare hi => exact .cons (Item.hasKind_of_freeName? hi (by simp) (by simp)) _
    | as hkeyword _ => exact .cons (Item.EndsOperand.of_spells hkeyword).dot _
  have hname := (tableOrSubselect_accepts htable).eq hfollow
  have halias := (aliasName?_accepts htail).eq hrest
  simp only [reference, List.append_assoc, hname, bind, Except.bind, List.drop_left, halias,
    List.length_append]

theorem joinKeywords?_accepts {kind : Join.Kind} {items : List Item} (h : kind.Spans items)
    (rest : List Item) : joinKeywords? (items ++ rest) = some (kind, items.length) := by
  rcases h with ⟨rfl, t, rfl, ht⟩ | ⟨-, words, hform, hspelled⟩
  · simp [joinKeywords?, Item.hasKind, Item.kind?, ht]
  · have hforms : Join.Kind.forms.Pairwise fun other form => clash form.2 other.2 = true := by
      decide
    have hfind : Join.Kind.forms.find? (fun form => startsWithWords form.2 (items ++ rest)) =
        some (kind, words) :=
      find?_of_pairwise hforms hform (hspelled.starts rest) fun other hclash =>
        hspelled.not_starts hclash rest
    have hne : ∀ form ∈ Join.Kind.forms, form.2 ≠ [] := by decide
    obtain ⟨word, later, rfl⟩ := List.exists_cons_of_ne_nil (hne _ hform)
    obtain ⟨i, last, rfl, hi⟩ := hspelled.exists_head
    have hcomma : i.hasKind .comma = false :=
      Item.hasKind_eq_false (Item.hasKind_of_spells hi) (by simp)
    rw [List.cons_append] at hfind ⊢
    simp only [joinKeywords?, hcomma, Bool.false_eq_true, if_false, hfind, Option.map_some,
      hspelled.2]

end Reading

def Join.Clause.Fits (room : Nat) : Option Join.Clause → Prop
  | some (.on tree _) => tree.isPlain = true ∧ tree.nesting ≤ room
  | _ => True

def Join.Clause.isClear : Option Join.Clause → Bool
  | some (.on tree _) => tree.isClear
  | _ => true

namespace Reading

variable {sure : Prop} {after : Option Item} {room : Nat}

theorem condition_accepts {tree : Condition} {items : List Item}
    (h : Derives (.condition tree) items) (hplain : tree.isPlain = true)
    (hnesting : tree.nesting ≤ room) (hsure : sure → Certain after tree.isClear items) :
    Accepts sure Item.EndsCondition (condition after room) tree items := by
  obtain ⟨c, first, xs, more, rfl, rfl, hfirst, hmore⟩ := h.accepted hsure room hplain hnesting
  exact connected_accepts hfirst hmore

theorem clause_accepts {own : Option Join.Clause} {start : Nat} {items : List Item}
    (h : Join.Clause.Spans start items own) (hfits : Join.Clause.Fits room own)
    (hsure : sure → Certain after (Join.Clause.isClear own) items) :
    Accepts sure Item.EndsJoin (clause after room start) own items := by
  intro rest hrest
  cases h with
  | none =>
      refine ⟨none, fun _ => rfl, ?_⟩
      cases rest with
      | nil => rfl
      | cons i rest =>
          obtain ⟨hon, husing⟩ := (hrest i rfl).clause
          simp [clause, hon, husing]
  | @on i cond tree hon hcond =>
      obtain ⟨read, htree, hread⟩ := condition_accepts hcond hfits.1 hfits.2
        (fun hs => (hsure hs).part (hsure hs).clear fun _ => List.mem_cons_of_mem i) rest
        (hrest.imp fun _ hi => hi.toEndsCondition)
      refine ⟨some (.on read ⟨start + 1, start + 1 + cond.length⟩), fun hs => by rw [htree hs], ?_⟩
      simp only [List.cons_append, clause, if_pos hon, hread, bind, Except.bind, List.length_cons,
        Nat.add_assoc, Nat.add_comm 1]
  | @«using» i opening closing names columns husing hopening hnames hclosing =>
      have hon : i.spells "ON" = false := (Item.spells_eq husing "ON").trans (by decide)
      have hread := (columns_accepts hnames "expected a column in USING").eq
        (FollowedBy.cons (Item.hasKind_eq_false hclosing (by simp)) rest)
      refine ⟨some (.using columns), fun _ => rfl, ?_⟩
      rw [List.cons_append, List.cons_append, List.append_assoc, List.singleton_append]
      simp only [clause, hon, husing, Bool.false_eq_true, if_false, if_true,
        expect_of_hasKind hopening, bind, Except.bind, List.drop_one, List.tail_cons, hread]
      rw [Nat.add_comm 1, List.drop_succ_cons, List.drop_left, expect_of_hasKind hclosing]
      simp
      omega

theorem join_accepts {j : Join} {start : Nat} {items : List Item} (h : j.Spans start items)
    (hfits : Join.Clause.Fits room j.clause)
    (hsure : sure → Certain after (Join.Clause.isClear j.clause) items) :
    Accepts sure Item.EndsJoin (join after room start) j items := by
  intro rest hrest
  obtain @⟨keyword, table, own, _, hkeyword, hkeywords, htable, hown, hitems⟩ := h
  obtain ⟨kind, reference, given, keywordItems, range⟩ := j
  obtain rfl : keywordItems = _ := hkeywords
  obtain rfl : range = _ := hitems
  have hreference : FollowedBy Item.EndsReference (own ++ rest) := by
    refine FollowedBy.append ?_ (hrest.imp fun _ => Item.EndsJoin.toEndsReference)
    cases hown with
    | none => exact nofun
    | on hon => exact .cons (.of_spells hon (by decide) (by decide)) _
    | «using» husing => exact .cons (.of_spells husing (by decide) (by decide)) _
  have hread := (reference_accepts htable).eq hreference
  obtain ⟨further, hclause, hfurther⟩ := clause_accepts hown hfits
    (fun hs => (hsure hs).part (hsure hs).clear (by simp_all)) rest hrest
  have hkinds := joinKeywords?_accepts hkeyword (table ++ (own ++ rest))
  refine ⟨⟨kind, reference, further, _, _⟩, fun hs => by rw [hclause hs], ?_⟩
  simp only [List.append_assoc] at hkinds ⊢
  simp only [join, hkinds, List.drop_left, hread, bind, Except.bind, ← List.drop_drop, hfurther]
  simp [Nat.add_assoc]

theorem joins_accepts (limit : Nat) {left start : Nat} {items : List Item} {js : List Join}
    (h : Join.ListSpans start items js) (hleft : js.length ≤ left)
    (hfits : ∀ j ∈ js, Join.Clause.Fits room j.clause)
    (hsure : sure → Certain after (js.all (Join.Clause.isClear ·.clause)) items) :
    ∃ read, (sure → read = js) ∧ joins after room limit left start items = .ok read := by
  induction h generalizing left with
  | nil => exact ⟨[], fun _ => rfl, by cases left <;> rfl⟩
  | @cons start items rest j js hfirst hrest ih =>
      cases left with
      | zero => cases hleft
      | succ left =>
          have hclear := fun hs => Bool.and_eq_true_iff.1 ((List.all_cons ..).symm.trans
            (hsure hs).clear)
          obtain ⟨read, hj, hread⟩ := join_accepts hfirst (hfits j (by simp))
            (fun hs => (hsure hs).part (hclear hs).1 (by simp_all)) rest hrest.endsJoin
          obtain ⟨more, hjs, hmore⟩ := ih (Nat.le_of_succ_le_succ hleft)
            (fun k hk => hfits k (List.mem_cons_of_mem _ hk))
            (fun hs => (hsure hs).part (hclear hs).2 (by simp_all))
          refine ⟨read :: more, fun hs => by rw [hj hs, hjs hs], ?_⟩
          obtain ⟨i, later, hitems⟩ : ∃ i later, items = i :: later :=
            List.exists_cons_of_ne_nil hfirst.settles.ne_nil
          subst hitems
          rw [List.cons_append] at hread ⊢
          simp only [joins, hread, bind, Except.bind]
          rw [← List.cons_append, List.drop_left, hmore]

end Reading

theorem References.parse_accepts {sure : Prop} {r : References} {start room maxJoins : Nat}
    {head rest : List Item} {after : Option Item} (h : r.Spans start head rest)
    (hjoins : r.joins.length ≤ maxJoins) (hfits : ∀ j ∈ r.joins, Join.Clause.Fits room j.clause)
    (hsure : sure → Certain after (r.joins.all (Join.Clause.isClear ·.clause)) rest) :
    ∃ read, (sure → read = r) ∧
      References.parse room maxJoins start (head ++ rest) after = .ok read := by
  have hends : FollowedBy Item.EndsReference rest :=
    h.joins.endsJoin.imp fun _ => Item.EndsJoin.toEndsReference
  have hfirst := (reference_accepts h.first).eq hends
  obtain ⟨joins, heq, hread⟩ := joins_accepts maxJoins h.joins hjoins hfits hsure
  refine ⟨⟨r.first, joins⟩, fun hs => by rw [heq hs], ?_⟩
  simp only [parse, hfirst, mapError_ok, bind, Except.bind, List.drop_left, hread]

theorem References.parse_of_spans {r : References} {start room maxJoins : Nat}
    {head rest : List Item} (h : r.Spans start head rest) (hjoins : r.joins.length ≤ maxJoins)
    (hfits : ∀ j ∈ r.joins, Join.Clause.Fits room j.clause) (after : Option Item) :
    ∃ read, References.parse room maxJoins start (head ++ rest) after = .ok read := by
  obtain ⟨read, -, hread⟩ : ∃ read, (False → read = r) ∧
      References.parse room maxJoins start (head ++ rest) after = .ok read :=
    parse_accepts h hjoins hfits nofun
  exact ⟨read, hread⟩

theorem References.parse_of_clear {r : References} {start room maxJoins : Nat}
    {head rest : List Item} {after : Option Item} (h : r.Spans start head rest)
    (hjoins : r.joins.length ≤ maxJoins) (hfits : ∀ j ∈ r.joins, Join.Clause.Fits room j.clause)
    (hcertain : Certain after (r.joins.all (Join.Clause.isClear ·.clause)) rest) :
    References.parse room maxJoins start (head ++ rest) after = .ok r := by
  obtain ⟨read, heq, hread⟩ : ∃ read, (True → read = r) ∧
      References.parse room maxJoins start (head ++ rest) after = .ok read :=
    parse_accepts h hjoins hfits fun _ => hcertain
  rw [hread, heq trivial]

section Lists

theorem Reading.comparator_of_mark {i : Item} {kind : Token.Kind} (h : i.hasKind kind = true)
    (hkind : kind ∉ [Token.Kind.operator, .word]) (rest : List Item) :
    ∃ e, comparator (i :: rest) = .error e := by
  have hspells : ∀ word, i.spells word = false :=
    Item.spells_eq_false (by rw [Item.kind?_of_hasKind h]; simp_all)
  have hoperator : i.hasKind .operator = false :=
    Item.hasKind_eq_false h (by rintro rfl; simp at hkind)
  simp [comparator, hoperator, Comparator.forms, startsWithWords, hspells]

theorem Derives.operand_in_list {value : Operand} {items : List Item}
    (h : Derives (.operand value) items) (hlist : value.isList = false) {mark : Item}
    (hmark : mark.hasKind .comma = true ∨ mark.hasKind .rparen = true) (after : Option Item)
    (room : Nat) (rest : List Item) :
    ∃ a n j later kind, operand after room (items ++ mark :: rest) = .ok (a, n) ∧
      (items ++ mark :: rest).drop n = j :: later ∧ j.hasKind kind = true ∧
      kind ∉ [Token.Kind.operator, .word] := by
  have hends : mark.EndsOperand := by
    rcases hmark with hmark | hmark <;> exact .of_hasKind hmark (by simp) (by simp)
  have hwhole : ∀ {a}, operand after room (items ++ mark :: rest) = .ok (a, items.length) →
      ∃ a n j later kind, operand after room (items ++ mark :: rest) = .ok (a, n) ∧
        (items ++ mark :: rest).drop n = j :: later ∧ j.hasKind kind = true ∧
        kind ∉ [Token.Kind.operator, .word] := by
    intro a ha
    rcases hmark with hmark | hmark
    · exact ⟨a, _, mark, rest, _, ha, List.drop_left, hmark, by simp⟩
    · exact ⟨a, _, mark, rest, _, ha, List.drop_left, hmark, by simp⟩
  by_cases hplain : value.isPlain = true
  · have hnesting : value.nesting ≤ room := by
      cases value <;> simp_all [Operand.nesting, Operand.isList]
    have haccepted : (ConditionPart.operand value).Accepted False after room items :=
      h.accepted nofun room
    obtain ⟨a, -, ha⟩ := haccepted hplain hnesting (mark :: rest) (.cons hends rest)
    exact hwhole ha
  · cases h with
    | column h =>
        have hnames := h
        obtain ⟨i, text, xs, later, rfl, rfl, hi, hlater⟩ := h
        by_cases hconstant :
            i.hasKind .word = true ∧ constantWords.any (Text.sameWord i.text) = true
        · cases hlater with
          | nil => exact absurd rfl hplain
          | @cons dot _ _ _ _ _ hdot _ _ =>
              exact ⟨_, 1, dot, _, .dot, operand_of_constant hconstant.1 hconstant.2 after room _,
                rfl, hasKind_of_mark? hdot, by simp⟩
        · have haccepts : Accepts False Item.EndsOperand (operand after room) (.column _) _ :=
            column_accepts hnames (fun hword hconst => absurd ⟨hword, hconst⟩ hconstant) nofun room
          obtain ⟨a, -, ha⟩ := haccepts (mark :: rest) (.cons hends rest)
          exact hwhole ha
    | _ => first | exact absurd rfl hplain | cases hlist

def ConditionPart.Refused (after : Option Item) (room : Nat) : ConditionPart → List Item → Prop
  | .operand value, items => ∀ rest, (value.isList = true ∨ ∃ mark later, rest = mark :: later ∧
      (mark.hasKind .comma = true ∨ mark.hasKind .rparen = true)) →
        ∃ e, Reading.term after room (items ++ rest) = .error e
  | .operands _, items => ∀ mark rest,
      (mark.hasKind .comma = true ∨ mark.hasKind .rparen = true) →
        ∃ e, Reading.condition after room (items ++ mark :: rest) = .error e
  | _, _ => True

theorem Derives.refused_of_not_list {value : Operand} {items : List Item}
    (h : Derives (.operand value) items) (hlist : value.isList = false) (room : Nat) :
    (ConditionPart.operand value).Refused after room items := by
  rintro rest (hlist' | ⟨mark, later, rfl, hmark⟩)
  · exact absurd hlist' (by simp [hlist])
  · obtain ⟨a, n, j, more, kind, ha, hdrop, hj, hkind⟩ :=
      h.operand_in_list hlist hmark after room later
    obtain ⟨i, tail, rfl, hnot, hlparen⟩ := h.head
    obtain ⟨e, he⟩ := comparator_of_mark hj hkind more
    refine ⟨e, ?_⟩
    rw [List.cons_append] at ha hdrop ⊢
    rw [term_of_comparison hnot (hlparen hlist)]
    simp only [comparison, ha, bind, Except.bind, hdrop, he]

theorem Derives.refused {p : ConditionPart} {items : List Item} (h : Derives p items)
    (after : Option Item) (room : Nat) : p.Refused after room items := by
  induction h generalizing room with
  | subselect => exact Derives.subselect.refused_of_not_list rfl room
  | number hi => exact (Derives.number hi).refused_of_not_list rfl room
  | quoted hq hi => exact (Derives.quoted hq hi).refused_of_not_list rfl room
  | constant hi hword => exact (Derives.constant hi hword).refused_of_not_list rfl room
  | param hi => exact (Derives.param hi).refused_of_not_list rfl room
  | signed hi hsign hj => exact (Derives.signed hi hsign hj).refused_of_not_list rfl room
  | column h => exact (Derives.column h).refused_of_not_list rfl room
  | call hi hcallee hopening hargs =>
      exact (Derives.call hi hcallee hopening hargs).refused_of_not_list rfl room
  | @list opening closing values items hopening _ hclosing ih =>
      intro rest _
      have hnot : opening.spells "NOT" = false :=
        Item.spells_eq_false (by simp [Item.kind?_of_hasKind hopening]) _
      rw [List.cons_append, List.append_assoc, List.singleton_append]
      unfold term
      cases room with
      | zero => exact ⟨nestedTooDeep, by simp [hnot, hopening]⟩
      | succ room =>
          obtain ⟨e, he⟩ := ih room closing rest (.inr hclosing)
          refine ⟨e, ?_⟩
          rw [condition] at he
          simp [hnot, hopening, he, bind, Except.bind]
  | one _ ih =>
      intro mark rest hmark
      obtain ⟨e, he⟩ := ih room (mark :: rest) (.inr ⟨mark, rest, rfl, hmark⟩)
      exact ⟨e, by simp only [condition, connected, he, bind, Except.bind]⟩
  | @more comma value values items later _ hcomma _ ih _ =>
      intro mark rest _
      obtain ⟨e, he⟩ := ih room (comma :: (later ++ mark :: rest)) (.inr ⟨comma, _, rfl, .inl hcomma⟩)
      refine ⟨e, ?_⟩
      rw [List.append_assoc, List.cons_append]
      simp only [condition, connected, he, bind, Except.bind]
  | compare | not | group | single | connect => trivial

theorem Reading.condition_of_list {values : List Operand} {items : List Item}
    (h : Derives (.operand (.list values)) items) (after : Option Item) (room : Nat)
    (rest : List Item) : ∃ e, condition after room (items ++ rest) = .error e := by
  obtain ⟨e, he⟩ := h.refused after room rest (.inl rfl)
  exact ⟨e, by simp only [condition, connected, he, bind, Except.bind]⟩

end Lists

end SoftDelete
