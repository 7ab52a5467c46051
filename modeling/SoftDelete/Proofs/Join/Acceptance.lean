import SoftDelete.Proofs.Join.Layout

namespace SoftDelete

open Reading

def FollowedBy (P : Item → Prop) (rest : List Item) : Prop :=
  ∀ i ∈ rest.head?, P i

/-- In front of nothing but `P`, exactly the items `used` are read, and as `value` if that is sure. -/
def Accepts {α : Type} (sure : Prop) (P : Item → Prop)
    (read : List Item → Except Failure (α × Nat)) (value : α) (used : List Item) : Prop :=
  ∀ rest, FollowedBy P rest → ∃ a, (sure → a = value) ∧ read (used ++ rest) = .ok (a, used.length)

namespace Accepts

variable {α : Type} {sure : Prop} {P : Item → Prop} {read : List Item → Except Failure (α × Nat)}
  {value : α} {used : List Item}

theorem of_eq (h : ∀ rest, FollowedBy P rest → read (used ++ rest) = .ok (value, used.length)) :
    Accepts sure P read value used :=
  fun rest hrest => ⟨value, fun _ => rfl, h rest hrest⟩

theorem eq (h : Accepts True P read value used) {rest : List Item} (hrest : FollowedBy P rest) :
    read (used ++ rest) = .ok (value, used.length) := by
  obtain ⟨a, ha, hread⟩ := h rest hrest
  rw [hread, ha trivial]

end Accepts

theorem FollowedBy.cons {P : Item → Prop} {i : Item} (h : P i) (rest : List Item) :
    FollowedBy P (i :: rest) := by
  rintro j hj
  cases hj
  exact h

theorem FollowedBy.imp {P Q : Item → Prop} {rest : List Item} (h : FollowedBy P rest)
    (hPQ : ∀ i, P i → Q i) : FollowedBy Q rest :=
  fun i hi => hPQ i (h i hi)

theorem FollowedBy.append {P : Item → Prop} {items rest : List Item} (h : FollowedBy P items)
    (hrest : FollowedBy P rest) : FollowedBy P (items ++ rest) := by
  cases items with
  | nil => exact hrest
  | cons i items => exact .cons (h i rfl) _

namespace Reading

section Elements

variable {α β : Type} {element : List Item → Except Failure (α × Nat)} {link? : Item → Option β}
  {sure : Prop} {P : Item → Prop} {items rest : List Item}

theorem linked_of_unlinked (h : FollowedBy (fun i => link? i = none) rest) :
    linked element link? rest = .ok ([], 0) := by
  cases rest with
  | nil => rw [linked]
  | cons i rest => rw [linked, h i rfl]

theorem linked_cons {i : Item} {b : β} {a : α} {xs : List (β × α)} {n : Nat}
    (hi : link? i = some b) (helement : element (items ++ rest) = .ok (a, items.length))
    (hrest : linked element link? rest = .ok (xs, n)) :
    linked element link? (i :: (items ++ rest)) = .ok ((b, a) :: xs, 1 + items.length + n) := by
  rw [linked, hi]
  simp only [helement, bind, Except.bind, List.drop_left, hrest]

theorem linked_accepts {xs : List (β × α)} (hlink : ∀ {i b}, link? i = some b → P i)
    (h : Linked (Accepts sure P element) link? xs items) :
    Accepts sure (fun i => link? i = none ∧ P i) (linked element link?) xs items := by
  induction h with
  | nil => exact .of_eq fun rest hrest => linked_of_unlinked (hrest.imp fun _ => And.left)
  | @cons i b a items more xs hi helement hmore ih =>
      intro rest hrest
      obtain ⟨ys, hys, hmany⟩ := ih rest hrest
      have hfollow : FollowedBy P (more ++ rest) := by
        refine FollowedBy.append ?_ (hrest.imp fun _ => And.right)
        cases hmore with
        | nil => exact nofun
        | cons hj => exact .cons (hlink hj) _
      obtain ⟨a', ha, hone⟩ := helement _ hfollow
      have hlength : 1 + items.length + more.length = (i :: (items ++ more)).length := by
        simp
        omega
      refine ⟨(b, a') :: ys, fun hsure => by rw [ha hsure, hys hsure], ?_⟩
      rw [List.cons_append, List.append_assoc, ← hlength]
      exact linked_cons hi hone hmany

end Elements

theorem name_of_freeName? {i : Item} {text : Text} (h : i.freeName? = some text) (what : String)
    (rest : List Item) : name what (i :: rest) = .ok (text, 1) := by
  rw [name, h]

theorem names_accepts {mark : Token.Kind} {xs : List (Unit × Text)} {items : List Item}
    (h : Linked Named (mark? mark) xs items) (what : String) :
    Accepts True (fun i => i.hasKind mark = false) (linked (name what) (mark? mark)) xs items := by
  have haccepts : Linked (Accepts True (fun _ => True) (name what)) (mark? mark) xs items := by
    induction h with
    | nil => exact .nil
    | cons hi hname _ ih =>
        obtain ⟨j, rfl, hj⟩ := hname
        exact .cons hi (.of_eq fun rest _ => name_of_freeName? hj what rest) ih
  intro rest hrest
  refine linked_accepts (fun _ => trivial) haccepts rest (hrest.imp fun i hi => ?_)
  exact ⟨by simp [mark?, hi], trivial⟩

theorem dotted_accepts {texts : List Text} {items : List Item} (h : NamesBy .dot texts items)
    (first next : String) :
    Accepts True (fun i => i.hasKind .dot = false) (dotted first next) texts items := by
  refine .of_eq fun rest hrest => ?_
  obtain ⟨i, text, xs, later, rfl, rfl, hi, hlater⟩ := h
  have hmany := (names_accepts hlater next).eq hrest
  simp only [dotted, List.cons_append, name_of_freeName? hi, bind, Except.bind, List.drop_one,
    List.tail_cons, hmany, List.length_cons, Nat.add_comm]

theorem columns_accepts {texts : List Text} {items : List Item} (h : NamesBy .comma texts items)
    (what : String) :
    Accepts True (fun i => i.hasKind .comma = false) (separated (name what) .comma) texts items := by
  refine .of_eq fun rest hrest => ?_
  obtain ⟨i, text, xs, later, rfl, rfl, hi, hlater⟩ := h
  have hmany := (names_accepts hlater what).eq hrest
  simp only [separated, List.cons_append, name_of_freeName? hi, bind, Except.bind, List.drop_one,
    List.tail_cons, hmany, List.length_cons, Nat.add_comm]

end Reading

structure Item.EndsOperand (i : Item) : Prop where
  dot : i.hasKind .dot = false
  lparen : i.hasKind .lparen = false

theorem Item.hasKind_eq_false {i : Item} {kind other : Token.Kind} (h : i.hasKind kind = true)
    (hother : kind ≠ other) : i.hasKind other = false := by
  simpa [hasKind, kind?_of_hasKind h] using hother

theorem Item.hasKind_of_spells {i : Item} {word : String} (h : i.spells word = true) :
    i.hasKind .word = true := by
  simp [hasKind, kind?_of_spells h]

namespace Item.EndsOperand

variable {i : Item}

theorem of_hasKind {kind : Token.Kind} (h : i.hasKind kind = true) (hdot : kind ≠ .dot)
    (hlparen : kind ≠ .lparen) : i.EndsOperand :=
  ⟨hasKind_eq_false h hdot, hasKind_eq_false h hlparen⟩

theorem of_spells {word : String} (h : i.spells word = true) : i.EndsOperand :=
  .of_hasKind (hasKind_of_spells h) (by simp) (by simp)

end Item.EndsOperand

namespace Reading

theorem namedOperand_accepts {texts : List Text} {items : List Item}
    (h : NamesBy .dot texts items) :
    Accepts True Item.EndsOperand namedOperand (.column texts) items := by
  refine .of_eq fun rest hrest => ?_
  obtain ⟨i, text, xs, later, rfl, rfl, hi, hlater⟩ := h
  have hmany := (names_accepts hlater "expected a column name after `.`").eq
    (hrest.imp fun _ => Item.EndsOperand.dot)
  have hopen : FollowedBy (fun j => j.hasKind .lparen = false) (later ++ rest) := by
    refine FollowedBy.append ?_ (hrest.imp fun _ => Item.EndsOperand.lparen)
    cases hlater with
    | nil => exact nofun
    | cons hdot => exact .cons (Item.hasKind_eq_false (hasKind_of_mark? hdot) (by simp)) _
  simp only [namedOperand, List.cons_append, name_of_freeName? hi, bind, Except.bind,
    List.drop_one, List.tail_cons]
  cases hbehind : later ++ rest with
  | nil =>
      obtain ⟨rfl, rfl⟩ := List.append_eq_nil_iff.1 hbehind
      cases hlater
      rfl
  | cons j tail =>
      have hj : j.hasKind .lparen = false := hopen j (by simp [hbehind])
      simp only [hj, Bool.false_eq_true, if_false, ← hbehind, hmany]
      rw [Nat.add_comm, List.length_cons]

theorem namedOperand_call {i opening closing : Item} {text : Text} {args rest : List Item}
    (hi : i.freeName? = some text) (hopening : opening.hasKind .lparen = true)
    (hargs : enclosed? Item.kind? 0 (args ++ closing :: rest) = some (args, closing, rest)) :
    namedOperand (i :: opening :: (args ++ closing :: rest)) =
      .ok (.call text (outputOf args), 1 + (args.length + 2)) := by
  simp only [namedOperand, name_of_freeName? hi, bind, Except.bind, List.drop_one, List.tail_cons,
    hopening, if_true, hargs]

theorem operand_of_isCallee {i : Item} (h : i.isCallee = true) (after : Option Item) (room : Nat)
    (rest : List Item) : operand after room (i :: rest) = namedOperand (i :: rest) := by
  unfold operand
  rcases Bool.or_eq_true_iff.1 h with hquoted | hword
  · simp only [Item.kind?_of_hasKind hquoted]
  · obtain ⟨hkind, hconstant⟩ := Bool.and_eq_true_iff.1 hword
    rw [Bool.not_eq_true'] at hconstant
    simp only [Item.kind?_of_hasKind hkind, hconstant, Bool.false_eq_true, if_false]

theorem operand_of_quoted {i : Item} {q : Quote} (hi : i.hasKind (.quoted q) = true)
    (hq : q ≠ .backtick) (after : Option Item) (room : Nat) (rest : List Item) :
    operand after room (i :: rest) =
      if (rest.head? <|> after).any (Item.hasKind · .dot) then namedOperand (i :: rest)
      else .ok (.literal i.text, 1) := by
  unfold operand
  cases q with
  | backtick => exact absurd rfl hq
  | single | double => simp only [Item.kind?_of_hasKind hi]

theorem operand_of_constant {i : Item} (hi : i.hasKind .word = true)
    (hword : constantWords.any (Text.sameWord i.text) = true) (after : Option Item) (room : Nat)
    (rest : List Item) :
    operand after room (i :: rest) = .ok (.literal (i.text.map Char.toUpper), 1) := by
  unfold operand
  simp only [Item.kind?_of_hasKind hi, hword, if_true]

section Operands

variable {sure : Prop} {after : Option Item}

theorem quoted_accepts {i : Item} {q : Quote} (hi : i.hasKind (.quoted q) = true)
    (hq : q ≠ .backtick) (hafter : sure → after.any (Item.hasKind · .dot) = false) (room : Nat) :
    Accepts sure Item.EndsOperand (operand after room) (.literal i.text) [i] := by
  intro rest hrest
  have hname : i.freeName? = some i.text := by
    simp [Item.freeName?, Item.kind?_of_hasKind hi]
  have hnames : NamesBy .dot [i.text] [i] := ⟨i, i.text, [], [], rfl, rfl, hname, .nil⟩
  have hread := operand_of_quoted hi hq after room rest
  by_cases hdot : (rest.head? <|> after).any (Item.hasKind · .dot) = true
  · rw [if_pos hdot] at hread
    refine ⟨.column [i.text], fun hsure => ?_, hread.trans ((namedOperand_accepts hnames).eq hrest)⟩
    cases rest with
    | nil => exact absurd (hafter hsure) (by simpa using hdot)
    | cons j rest => exact absurd (hrest j rfl).dot (by simpa using hdot)
  · rw [if_neg hdot] at hread
    exact ⟨_, fun _ => rfl, hread⟩

theorem column_accepts {i : Item} {later : List Item} {texts : List Text}
    (h : NamesBy .dot texts (i :: later))
    (hplain : i.hasKind .word = true → constantWords.any (Text.sameWord i.text) = true → later = [])
    (hsure : sure → later = [] → i.isCallee = true) (room : Nat) :
    Accepts sure Item.EndsOperand (operand after room) (.column texts) (i :: later) := by
  intro rest hrest
  have hnamed := (namedOperand_accepts h).eq hrest
  by_cases hcallee : i.isCallee = true
  · exact ⟨_, fun _ => rfl, (operand_of_isCallee hcallee after room _).trans hnamed⟩
  obtain ⟨j, text, xs, more, hsplit, rfl, hi, hlater⟩ := h
  obtain ⟨rfl, rfl⟩ := List.cons.inj hsplit
  have hunsure : later = [] → ¬ sure := fun hnil hs => hcallee (hsure hs hnil)
  obtain ⟨t, rfl, hname, rfl⟩ := Item.freeName?_eq_some hi
  cases hkind : t.kind with
  | word =>
      have hword : (Item.token t).hasKind .word = true := by simp [Item.hasKind, Item.kind?, hkind]
      have hconstant : constantWords.any (Text.sameWord t.text) = true := by
        simp [Item.isCallee, Item.hasKind, Item.kind?, hkind, Item.text] at hcallee
        simpa using hcallee
      obtain rfl := hplain hword hconstant
      exact ⟨_, fun hs => absurd hs (hunsure rfl), operand_of_constant hword hconstant after room rest⟩
  | quoted q =>
      have hquoted : (Item.token t).hasKind (.quoted q) = true := by
        simp [Item.hasKind, Item.kind?, hkind]
      have hq : q ≠ .backtick := by
        rintro rfl
        simp [Item.isCallee, hquoted] at hcallee
      have hread := operand_of_quoted hquoted hq after room (later ++ rest)
      rw [List.cons_append] at hnamed ⊢
      by_cases hdot : ((later ++ rest).head? <|> after).any (Item.hasKind · .dot) = true
      · rw [if_pos hdot] at hread
        exact ⟨_, fun _ => rfl, hread.trans hnamed⟩
      · rw [if_neg hdot] at hread
        cases hlater with
        | nil => exact ⟨_, fun hs => absurd hs (hunsure rfl), hread⟩
        | cons hmark => simp [hasKind_of_mark? hmark] at hdot
  | _ => simp [Token.canName, hkind] at hname

end Operands

theorem separated_more {α : Type} {element : List Item → Except Failure (α × Nat)}
    {mark : Token.Kind} {i : Item} {a : α} {as : List α} {items rest : List Item} {n : Nat}
    (helement : element (items ++ i :: rest) = .ok (a, items.length))
    (hi : i.hasKind mark = true) (hrest : separated element mark rest = .ok (as, n)) :
    separated element mark (items ++ i :: rest) = .ok (a :: as, items.length + (1 + n)) := by
  obtain ⟨⟨first, k⟩, hfirst, hlater⟩ := exists_of_bind_ok hrest
  obtain ⟨⟨more, m⟩, hmore, hlater⟩ := exists_of_bind_ok hlater
  cases hlater
  have hmark : mark? mark i = some () := by simp [mark?, hi]
  simp only [separated, helement, bind, Except.bind, List.drop_left]
  rw [linked, hmark]
  simp only [hfirst, bind, Except.bind, hmore, List.map_cons, Nat.add_assoc]

theorem separated_one {α : Type} {element : List Item → Except Failure (α × Nat)}
    {mark : Token.Kind} {a : α} {items rest : List Item}
    (helement : element (items ++ rest) = .ok (a, items.length))
    (hrest : FollowedBy (fun i => i.hasKind mark = false) rest) :
    separated element mark (items ++ rest) = .ok ([a], items.length) := by
  have hlinked : linked element (mark? mark) rest = .ok ([], 0) :=
    linked_of_unlinked (hrest.imp fun i hi => by simp [mark?, hi])
  simp only [separated, helement, bind, Except.bind, List.drop_left, hlinked, List.map_nil,
    Nat.add_zero]

theorem expect_of_hasKind {i : Item} {kind : Token.Kind} (hi : i.hasKind kind = true)
    (what : String) (rest : List Item) : expect kind what (i :: rest) = .ok ((), 1) := by
  rw [expect, if_pos hi]

end Reading

structure Item.EndsValues (i : Item) : Prop extends i.EndsOperand where
  comma : i.hasKind .comma = false

namespace Reading

variable {sure : Prop} {after : Option Item} {room : Nat}

theorem list_accepts {P : Item → Prop} {opening closing : Item} {values : List Operand}
    {items : List Item} (hopening : opening.hasKind .lparen = true)
    (h : Accepts sure Item.EndsValues (separated (operand after room) .comma) values items)
    (hclosing : closing.hasKind .rparen = true) :
    Accepts sure P (operand after (room + 1)) (.list values) (opening :: (items ++ [closing])) := by
  intro rest _
  have hends : closing.EndsValues :=
    ⟨.of_hasKind hclosing (by simp) (by simp), Item.hasKind_eq_false hclosing (by simp)⟩
  obtain ⟨read, hvalues, hread⟩ := h (closing :: rest) (.cons hends rest)
  refine ⟨.list read, fun hsure => by rw [hvalues hsure], ?_⟩
  rw [List.cons_append, List.append_assoc, List.singleton_append]
  unfold operand
  simp only [Item.kind?_of_hasKind hopening, hread, bind, Except.bind, List.drop_left,
    expect_of_hasKind hclosing]
  simp [Nat.add_comm]

theorem values_accepts_one {value : Operand} {items : List Item}
    (h : Accepts sure Item.EndsOperand (operand after room) value items) :
    Accepts sure Item.EndsValues (separated (operand after room) .comma) [value] items := by
  intro rest hrest
  obtain ⟨read, hvalue, hread⟩ := h rest (hrest.imp fun _ => Item.EndsValues.toEndsOperand)
  exact ⟨[read], fun hsure => by rw [hvalue hsure],
    separated_one hread (hrest.imp fun _ => Item.EndsValues.comma)⟩

theorem values_accepts_more {comma : Item} {value : Operand} {values : List Operand}
    {items more : List Item} (h : Accepts sure Item.EndsOperand (operand after room) value items)
    (hcomma : comma.hasKind .comma = true)
    (hmore : Accepts sure Item.EndsValues (separated (operand after room) .comma) values more) :
    Accepts sure Item.EndsValues (separated (operand after room) .comma) (value :: values)
      (items ++ comma :: more) := by
  intro rest hrest
  obtain ⟨many, hvalues, hlater⟩ := hmore rest hrest
  have hends : comma.EndsOperand := .of_hasKind hcomma (by simp) (by simp)
  obtain ⟨read, hvalue, hread⟩ := h (comma :: (more ++ rest)) (.cons hends _)
  refine ⟨read :: many, fun hsure => by rw [hvalue hsure, hvalues hsure], ?_⟩
  rw [List.append_assoc, List.cons_append, separated_more hread hcomma hlater]
  simp [Nat.add_comm]

end Reading

structure Item.EndsCondition (i : Item) : Prop extends i.EndsOperand where
  connective : Connective.ofItem? i = none

theorem Connective.hasKind_of_ofItem? {i : Item} {k : Connective} (h : ofItem? i = some k) :
    i.hasKind .word = true ∨ i.hasKind .operator = true := by
  have hspelled : ∀ {word : String} {text : Text},
      (i.spells word || (i.hasKind .operator && i.text == text)) = true →
        i.hasKind .word = true ∨ i.hasKind .operator = true := fun h =>
    (Bool.or_eq_true_iff.1 h).imp Item.hasKind_of_spells fun h => (Bool.and_eq_true_iff.1 h).1
  unfold ofItem? at h
  split at h
  · exact hspelled ‹_›
  · split at h
    · exact hspelled ‹_›
    · cases h

theorem Connective.endsOperand {i : Item} {k : Connective} (h : ofItem? i = some k) :
    i.EndsOperand := by
  rcases hasKind_of_ofItem? h with hi | hi <;> exact .of_hasKind hi (by simp) (by simp)

theorem Item.EndsCondition.of_hasKind {i : Item} {kind : Token.Kind} (h : i.hasKind kind = true)
    (hkind : kind ∉ [Token.Kind.dot, .lparen, .word, .operator]) : i.EndsCondition where
  toEndsOperand := .of_hasKind h (by rintro rfl; simp at hkind) (by rintro rfl; simp at hkind)
  connective := by
    rw [Option.eq_none_iff_forall_ne_some]
    intro k hk
    rcases Connective.hasKind_of_ofItem? hk with hi | hi
    · obtain rfl := Option.some.inj ((Item.kind?_of_hasKind h).symm.trans (Item.kind?_of_hasKind hi))
      simp at hkind
    · obtain rfl := Option.some.inj ((Item.kind?_of_hasKind h).symm.trans (Item.kind?_of_hasKind hi))
      simp at hkind

def clash : List String → List String → Bool
  | word :: words, other :: others =>
      !Text.sameWord word.toList other.toList || clash words others
  | _, _ => false

theorem SpelledBy.not_starts {words others : List String} {items : List Item}
    (h : SpelledBy words items) (hclash : clash words others = true) (rest : List Item) :
    startsWithWords others (items ++ rest) = false := by
  induction words generalizing others items with
  | nil => simp [clash] at hclash
  | cons word words ih =>
      cases others with
      | nil => simp [clash] at hclash
      | cons other others =>
          obtain ⟨hstarts, hlength⟩ := h
          cases items with
          | nil => cases hlength
          | cons i items =>
              obtain ⟨hi, hlater⟩ := Bool.and_eq_true_iff.1 hstarts
              simp only [List.cons_append, startsWithWords, Item.spells_eq hi, Bool.and_eq_false_iff]
              rcases Bool.or_eq_true_iff.1 hclash with hdiffers | hclash
              · exact .inl (by simpa using hdiffers)
              · exact .inr (ih ⟨hlater, Nat.succ.inj hlength⟩ hclash)

theorem SpelledBy.starts_append {words : List String} {items : List Item}
    (h : SpelledBy words items) (more : List String) (rest : List Item) :
    startsWithWords (words ++ more) (items ++ rest) = startsWithWords more rest := by
  induction words generalizing items with
  | nil =>
      obtain rfl := List.eq_nil_of_length_eq_zero h.2
      rfl
  | cons word words ih =>
      obtain ⟨hstarts, hlength⟩ := h
      cases items with
      | nil => cases hlength
      | cons i items =>
          obtain ⟨hi, hlater⟩ := Bool.and_eq_true_iff.1 hstarts
          rw [List.cons_append, List.cons_append, startsWithWords, hi, Bool.true_and]
          exact ih ⟨hlater, Nat.succ.inj hlength⟩

theorem SpelledBy.starts {words : List String} {items : List Item} (h : SpelledBy words items)
    (rest : List Item) : startsWithWords words (items ++ rest) = true := by
  simpa [startsWithWords] using h.starts_append [] rest

theorem SpelledBy.exists_head {word : String} {words : List String} {items : List Item}
    (h : SpelledBy (word :: words) items) :
    ∃ i later, items = i :: later ∧ i.spells word = true := by
  obtain ⟨hstarts, hlength⟩ := h
  cases items with
  | nil => cases hlength
  | cons i later => exact ⟨i, later, rfl, (Bool.and_eq_true_iff.1 hstarts).1⟩

namespace Reading

theorem find?_of_pairwise {α : Type} {p : α → Bool} {R : α → α → Prop} {xs : List α} {x : α}
    (hxs : xs.Pairwise R) (hx : x ∈ xs) (hp : p x = true) (hmiss : ∀ y, R y x → p y = false) :
    xs.find? p = some x := by
  induction xs with
  | nil => cases hx
  | cons y xs ih =>
      obtain ⟨hy, hxs⟩ := List.pairwise_cons.1 hxs
      rcases List.mem_cons.1 hx with rfl | hlater
      · exact List.find?_cons_of_pos hp
      · rw [List.find?_cons_of_neg (by simp [hmiss y (hy x hlater)])]
        exact ih hxs hlater

theorem comparator_accepts {op : Comparator} {items rest : List Item} (h : Compares op items)
    (hnot : FollowedBy (fun i => i.spells "NOT" = false) rest) :
    comparator (items ++ rest) = .ok (op, items.length) := by
  rcases h with ⟨i, rfl, hi, hop⟩ | ⟨form, hform, rfl, hspelled⟩
  · simp [comparator, hi, hop]
  · -- `IS` alone is the one form that another one, in front of it, begins with.
    have hforms : Comparator.forms.Pairwise fun other form =>
        clash form.1 other.1 = true ∨ other.1 = form.1 ++ ["NOT"] := by decide
    have hfind : Comparator.forms.find? (fun form => startsWithWords form.1 (items ++ rest)) =
        some form := by
      refine find?_of_pairwise hforms hform (hspelled.starts rest) fun other hother => ?_
      rcases hother with hclash | hlonger
      · exact hspelled.not_starts hclash rest
      · rw [hlonger, hspelled.starts_append]
        cases rest with
        | nil => rfl
        | cons j rest => simp [startsWithWords, hnot j rfl]
    have hne : ∀ form ∈ Comparator.forms, form.1 ≠ [] := by decide
    obtain ⟨word, words, hwords⟩ := List.exists_cons_of_ne_nil (hne form hform)
    obtain ⟨i, later, rfl, hi⟩ := SpelledBy.exists_head (hwords ▸ hspelled)
    have hoperator : i.hasKind .operator = false :=
      Item.hasKind_eq_false (Item.hasKind_of_spells hi) (by simp)
    rw [List.cons_append] at hfind ⊢
    simp only [comparator, hoperator, Bool.false_eq_true, if_false, hfind, hspelled.2]

end Reading

end SoftDelete
