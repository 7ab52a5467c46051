import SoftDelete.Proofs.Join.Grammar

namespace SoftDelete

theorem exists_of_bind_ok {ε α β : Type} {x : Except ε α} {f : α → Except ε β} {b : β}
    (h : x >>= f = .ok b) : ∃ a, x = .ok a ∧ f a = .ok b := by
  cases x with
  | error e => cases h
  | ok a => exact ⟨a, rfl, h⟩

theorem exists_ok_of_any {ε α : Type} {x : Except ε α} {P : α → Prop} [DecidablePred P]
    (h : x.toOption.any (P ·) = true) : ∃ a, x = .ok a ∧ P a := by
  cases x with
  | error e => cases h
  | ok a => exact ⟨a, rfl, of_decide_eq_true h⟩

theorem mapError_ok {ε ε' α : Type} (f : ε → ε') (a : α) : (Except.ok a).mapError f = .ok a := rfl

def Takes (P : List Item → Prop) (items : List Item) (n : Nat) : Prop :=
  ∃ used rest, items = used ++ rest ∧ used.length = n ∧ P used

def Reads {α : Type} (P : α → List Item → Prop)
    (read : List Item → Except Failure (α × Nat)) : Prop :=
  ∀ {items a n}, read items = .ok (a, n) → Takes (P a) items n

namespace Reading

theorem linked_reads {α β : Type} {P : α → List Item → Prop}
    {element : List Item → Except Failure (α × Nat)} (helement : Reads P element)
    {link? : Item → Option β} : Reads (Linked P link?) (linked element link?) := by
  intro items xs n h
  fun_induction linked element link? items generalizing xs n with
  | case1 =>
      cases h
      exact ⟨[], [], rfl, rfl, .nil⟩
  | case2 i rest hlink =>
      cases h
      exact ⟨[], i :: rest, rfl, rfl, .nil⟩
  | case3 i rest link hlink ih =>
      obtain ⟨⟨first, k⟩, hfirst, h⟩ := exists_of_bind_ok h
      obtain ⟨⟨more, m⟩, hmore, h⟩ := exists_of_bind_ok h
      cases h
      obtain ⟨used, later, rfl, rfl, hused⟩ := helement hfirst
      have htaken := ih used.length hmore
      rw [List.drop_left] at htaken
      obtain ⟨taken, last, rfl, rfl, hlinked⟩ := htaken
      exact ⟨i :: (used ++ taken), last, by simp, by simp; omega, .cons hlink hused hlinked⟩

theorem expect_reads (kind : Token.Kind) (what : String) :
    Reads (fun _ items => ∃ i, items = [i] ∧ i.hasKind kind = true) (expect kind what) := by
  intro items u n h
  cases items with
  | nil => cases h
  | cons i rest =>
      simp only [expect] at h
      split at h
      · rename_i hi
        cases h
        exact ⟨[i], rest, rfl, rfl, i, rfl, hi⟩
      · cases h

theorem name_reads (what : String) : Reads Named (name what) := by
  intro items text n h
  cases items with
  | nil => cases h
  | cons i rest =>
      simp only [name] at h
      split at h
      · rename_i hi
        cases h
        exact ⟨[i], rest, rfl, rfl, i, rfl, hi⟩
      · cases h

theorem takes_linked {α β : Type} {P : α → List Item → Prop}
    {element : List Item → Except Failure (α × Nat)} (helement : Reads P element)
    {link? : Item → Option β} {Q : List Item → Prop} {items : List Item} {n m : Nat}
    {xs : List (β × α)} (hfirst : Takes Q items n)
    (hmore : linked element link? (items.drop n) = .ok (xs, m)) :
    Takes (fun used => ∃ front back, used = front ++ back ∧ Q front ∧ Linked P link? xs back)
      items (n + m) := by
  obtain ⟨used, rest, rfl, rfl, hused⟩ := hfirst
  rw [List.drop_left] at hmore
  obtain ⟨taken, last, rfl, rfl, htaken⟩ := linked_reads helement hmore
  exact ⟨used ++ taken, last, by simp, by simp, used, taken, rfl, hused, htaken⟩

theorem namesBy_of_linked {text : Text} {xs : List (Unit × Text)} {front back : List Item}
    {mark : Token.Kind} (hfront : Named text front) (hback : Linked Named (mark? mark) xs back) :
    NamesBy mark (text :: xs.map Prod.snd) (front ++ back) := by
  obtain ⟨i, rfl, hi⟩ := hfront
  exact ⟨i, text, xs, back, rfl, rfl, hi, hback⟩

theorem dotted_reads (first next : String) : Reads (NamesBy .dot) (dotted first next) := by
  intro items parts n h
  obtain ⟨⟨head, k⟩, hhead, h⟩ := exists_of_bind_ok h
  obtain ⟨⟨more, m⟩, hmore, h⟩ := exists_of_bind_ok h
  cases h
  obtain ⟨used, rest, hsplit, hlen, front, back, rfl, hfront, hback⟩ :=
    takes_linked (name_reads next) (name_reads first hhead) hmore
  exact ⟨_, rest, hsplit, hlen, namesBy_of_linked hfront hback⟩

theorem columns_reads (what : String) :
    Reads (NamesBy .comma) (separated (name what) .comma) := by
  intro items parts n h
  obtain ⟨⟨head, k⟩, hhead, h⟩ := exists_of_bind_ok h
  obtain ⟨⟨more, m⟩, hmore, h⟩ := exists_of_bind_ok h
  cases h
  obtain ⟨used, rest, hsplit, hlen, front, back, rfl, hfront, hback⟩ :=
    takes_linked (name_reads what) (name_reads what hhead) hmore
  exact ⟨_, rest, hsplit, hlen, namesBy_of_linked hfront hback⟩

theorem derives_of_linked_operands {value : Operand} {xs : List (Unit × Operand)}
    {front back : List Item} (hfront : Derives (.operand value) front)
    (hback : Linked (fun v => Derives (.operand v)) (mark? .comma) xs back) :
    Derives (.operands (value :: xs.map Prod.snd)) (front ++ back) := by
  induction hback generalizing value front with
  | nil =>
      rw [List.append_nil]
      exact .one hfront
  | cons hlink hv _ ih => exact .more hfront (hasKind_of_mark? hlink) (ih hv)

theorem operands_reads {element : List Item → Except Failure (Operand × Nat)}
    (helement : Reads (fun v => Derives (.operand v)) element) :
    Reads (fun vs => Derives (.operands vs)) (separated element .comma) := by
  intro items values n h
  obtain ⟨⟨first, k⟩, hfirst, h⟩ := exists_of_bind_ok h
  obtain ⟨⟨more, m⟩, hmore, h⟩ := exists_of_bind_ok h
  cases h
  obtain ⟨used, rest, hsplit, hlen, front, back, rfl, hfront, hback⟩ :=
    takes_linked helement (helement hfirst) hmore
  exact ⟨_, rest, hsplit, hlen, derives_of_linked_operands hfront hback⟩

theorem derives_of_linked_terms {c : Condition} {xs : List (Connective × Condition)}
    {front back : List Item} (hfront : Derives (.condition c) front)
    (hback : Linked (fun d => Derives (.term d)) Connective.ofItem? xs back) :
    Derives (.condition (xs.foldl (fun lhs step => step.1.join lhs step.2) c)) (front ++ back) := by
  induction hback generalizing c front with
  | nil => simpa using hfront
  | @cons i k d items rest xs hlink hd _ ih =>
      have hmore := ih (.connect hfront hlink hd)
      simpa using hmore

theorem connected_reads {term : List Item → Except Failure (Condition × Nat)}
    (hterm : Reads (fun c => Derives (.term c)) term) :
    Reads (fun c => Derives (.condition c)) (connected term) := by
  intro items c n h
  obtain ⟨⟨first, k⟩, hfirst, h⟩ := exists_of_bind_ok h
  obtain ⟨⟨more, m⟩, hmore, h⟩ := exists_of_bind_ok h
  cases h
  obtain ⟨used, rest, hsplit, hlen, front, back, rfl, hfront, hback⟩ :=
    takes_linked hterm (hterm hfirst) hmore
  exact ⟨_, rest, hsplit, hlen, derives_of_linked_terms (.single hfront) hback⟩

theorem namedOperand_reads {i : Item} {rest : List Item} {value : Operand} {n : Nat}
    (hcallee : i.isCallee = true ∨ rest.head?.any (Item.hasKind · .lparen) = false)
    (h : namedOperand (i :: rest) = .ok (value, n)) :
    Takes (Derives (.operand value)) (i :: rest) n := by
  obtain ⟨⟨first, k⟩, hfirst, h⟩ := exists_of_bind_ok h
  obtain ⟨front, later, hsplit, rfl, j, rfl, hi⟩ := name_reads _ hfirst
  obtain ⟨rfl, rfl⟩ := List.cons.inj hsplit
  simp only [List.length_singleton, List.drop_one, List.tail_cons] at h
  cases rest with
  | nil =>
      cases h
      exact ⟨[i], [], rfl, rfl, .column ⟨i, first, [], [], rfl, rfl, hi, .nil⟩⟩
  | cons j rest =>
      simp only at h
      split at h
      · rename_i hj
        split at h
        · cases h
        · rename_i args closing last hclosed
          cases h
          obtain rfl := append_of_enclosed? hclosed
          have hcallee : i.isCallee = true := hcallee.resolve_right (by simp [hj])
          exact ⟨i :: j :: (args ++ [closing]), last, by simp, by simp; omega,
            .call hi hcallee hj hclosed⟩
      · obtain ⟨⟨parts, m⟩, hparts, h⟩ := exists_of_bind_ok h
        cases h
        obtain ⟨taken, last, hsplit, rfl, hlinked⟩ := linked_reads (name_reads _) hparts
        refine ⟨i :: taken, last, by simp [hsplit], by simp; omega, .column ?_⟩
        exact namesBy_of_linked ⟨i, rfl, hi⟩ hlinked

theorem operand_reads_step {after : Option Item} {room : Nat}
    (hlist : ∀ r, room = r + 1 → Reads (fun v => Derives (.operand v)) (operand after r)) :
    Reads (fun v => Derives (.operand v)) (operand after room) := by
  intro items value n h
  cases items with
  | nil =>
      unfold operand at h
      cases h
  | cons i rest =>
      have hkind : ∀ {kind}, i.kind? = some kind → i.hasKind kind = true := fun hi => by
        simp [Item.hasKind, hi]
      unfold operand at h
      split at h
      · rename_i hi
        cases h
        cases i with
        | token t => cases hi
        | subselect gap text body => exact ⟨[_], rest, rfl, rfl, .subselect⟩
      · rename_i hi
        cases h
        exact ⟨[i], rest, rfl, rfl, .number (hkind hi)⟩
      · rename_i hi
        cases h
        exact ⟨[i], rest, rfl, rfl, .param (hkind hi)⟩
      · rename_i hi
        have htwo : ∀ {j tail}, (i.text = ['-'] ∨ i.text = ['+']) → rest = j :: tail →
            (if j.hasKind .number then Except.ok (Operand.literal (i.text ++ j.text), 2)
              else .error (misfit "expected an operand" (i :: rest))) = .ok (value, n) →
            Takes (Derives (.operand value)) (i :: rest) n := by
          rintro j tail hsign rfl h
          split at h
          · rename_i hj
            cases h
            exact ⟨[i, j], tail, rfl, rfl, .signed (hkind hi) hsign hj⟩
          · cases h
        split at h
        · rename_i htext
          exact htwo (.inl htext) rfl h
        · rename_i htext
          exact htwo (.inr htext) rfl h
        · cases h
      · rename_i hi
        split at h
        · cases h
        · rename_i r
          obtain ⟨⟨values, k⟩, hvalues, h⟩ := exists_of_bind_ok h
          obtain ⟨⟨u, m⟩, hclose, h⟩ := exists_of_bind_ok h
          cases h
          obtain ⟨used, later, rfl, rfl, hused⟩ := operands_reads (hlist r rfl) hvalues
          rw [List.drop_left] at hclose
          obtain ⟨last, later, rfl, rfl, closing, rfl, hclosing⟩ := expect_reads _ _ hclose
          exact ⟨i :: (used ++ [closing]), later, by simp, by simp; omega,
            .list (hkind hi) hused hclosing⟩
      · rename_i hi
        split at h
        · rename_i hword
          cases h
          exact ⟨[i], rest, rfl, rfl, .constant (hkind hi) hword⟩
        · rename_i hword
          exact namedOperand_reads (.inl (by simp [Item.isCallee, hkind hi, hword])) h
      · rename_i hi
        exact namedOperand_reads (.inl (by simp [Item.isCallee, hkind hi])) h
      · rename_i q hq hi
        split at h
        · rename_i hdot
          -- What stands behind the quoted text is a point and so no parenthesis.
          refine namedOperand_reads (.inr ?_) h
          cases rest with
          | nil => rfl
          | cons j rest =>
              have hj := Item.kind?_of_hasKind (by simpa using hdot : j.hasKind .dot = true)
              simp [Item.hasKind, hj]
        · cases h
          exact ⟨[i], rest, rfl, rfl, .quoted hq (hkind hi)⟩
      · cases h

theorem operand_reads (after : Option Item) (room : Nat) :
    Reads (fun v => Derives (.operand v)) (operand after room) := by
  induction room with
  | zero => exact operand_reads_step fun r hr => absurd hr (by simp)
  | succ room ih =>
      refine operand_reads_step fun r hr => ?_
      obtain rfl := Nat.succ.inj hr
      exact ih

theorem takes_words {words : List String} {items : List Item}
    (h : startsWithWords words items = true) : Takes (SpelledBy words) items words.length := by
  induction words generalizing items with
  | nil => exact ⟨[], items, rfl, rfl, rfl, rfl⟩
  | cons word words ih =>
      cases items with
      | nil => cases h
      | cons i items =>
          simp only [startsWithWords, Bool.and_eq_true] at h
          obtain ⟨used, rest, rfl, hlen, hused, -⟩ := ih h.2
          exact ⟨i :: used, rest, rfl, by simp [hlen], by simp [startsWithWords, h.1, hused],
            by simp [hlen]⟩

theorem comparator_reads : Reads Compares comparator := by
  intro items op n h
  cases items with
  | nil => cases h
  | cons i rest =>
      simp only [comparator] at h
      split at h
      · rename_i op hop
        cases h
        split at hop
        · rename_i hi
          exact ⟨[i], rest, rfl, rfl, .inl ⟨i, rfl, hi, hop⟩⟩
        · cases hop
      · split at h
        · rename_i form hform
          cases h
          have hstarts : startsWithWords form.1 (i :: rest) = true := by
            simpa using List.find?_some hform
          obtain ⟨used, later, hsplit, hlen, hwords⟩ := takes_words hstarts
          exact ⟨used, later, hsplit, hlen,
            .inr ⟨form, List.mem_of_find?_eq_some hform, rfl, hwords⟩⟩
        · cases h

theorem comparison_reads (after : Option Item) (room : Nat) :
    Reads (fun c => Derives (.term c)) (comparison after room) := by
  intro items c n h
  obtain ⟨⟨lhs, k⟩, hlhs, h⟩ := exists_of_bind_ok h
  obtain ⟨⟨op, m⟩, hop, h⟩ := exists_of_bind_ok h
  obtain ⟨⟨rhs, j⟩, hrhs, h⟩ := exists_of_bind_ok h
  cases h
  obtain ⟨left, rest, rfl, rfl, hleft⟩ := operand_reads after room hlhs
  rw [List.drop_left] at hop
  obtain ⟨middle, rest, rfl, rfl, hmiddle⟩ := comparator_reads hop
  rw [← List.append_assoc, ← List.length_append, List.drop_left] at hrhs
  obtain ⟨right, rest, rfl, rfl, hright⟩ := operand_reads after room hrhs
  exact ⟨left ++ (middle ++ right), rest, by simp, by simp; omega, .compare hleft hmiddle hright⟩

theorem term_reads_step {after : Option Item} {room : Nat}
    (hinner : ∀ r, room = r + 1 → Reads (fun c => Derives (.term c)) (term after r)) :
    Reads (fun c => Derives (.term c)) (term after room) := by
  intro items c n h
  unfold term at h
  split at h
  · exact comparison_reads after room h
  · rename_i i rest
    split at h
    · rename_i hi
      split at h
      · cases h
      · rename_i r
        obtain ⟨⟨inner, k⟩, hread, h⟩ := exists_of_bind_ok h
        cases h
        obtain ⟨used, later, rfl, rfl, hused⟩ := hinner r rfl hread
        exact ⟨i :: used, later, rfl, by simp; omega, .not hi hused⟩
    · split at h
      · rename_i hi
        split at h
        · cases h
        · rename_i r
          obtain ⟨⟨inner, k⟩, hread, h⟩ := exists_of_bind_ok h
          obtain ⟨⟨u, m⟩, hclose, h⟩ := exists_of_bind_ok h
          cases h
          obtain ⟨used, later, rfl, rfl, hused⟩ := connected_reads (hinner r rfl) hread
          rw [List.drop_left] at hclose
          obtain ⟨last, later, rfl, rfl, closing, rfl, hclosing⟩ := expect_reads _ _ hclose
          exact ⟨i :: (used ++ [closing]), later, by simp, by simp; omega,
            .group hi hused hclosing⟩
      · exact comparison_reads after room h

theorem term_reads (after : Option Item) (room : Nat) :
    Reads (fun c => Derives (.term c)) (term after room) := by
  induction room with
  | zero => exact term_reads_step fun r hr => absurd hr (by simp)
  | succ room ih =>
      refine term_reads_step fun r hr => ?_
      obtain rfl := Nat.succ.inj hr
      exact ih

theorem condition_reads (after : Option Item) (room : Nat) :
    Reads (fun c => Derives (.condition c)) (condition after room) :=
  connected_reads (term_reads after room)

theorem aliasName?_reads : Reads AliasName aliasName? := by
  intro items aliasName n h
  cases items with
  | nil =>
      cases h
      exact ⟨[], [], rfl, rfl, .none⟩
  | cons i rest =>
      simp only [aliasName?] at h
      split at h
      · rename_i hi
        obtain ⟨⟨text, k⟩, hname, h⟩ := exists_of_bind_ok h
        cases h
        obtain ⟨used, later, rfl, rfl, j, rfl, hj⟩ := name_reads _ hname
        exact ⟨[i, j], later, rfl, rfl, .as hi hj⟩
      · split at h
        · rename_i hi
          cases h
          exact ⟨[i], rest, rfl, rfl, .bare hi⟩
        · cases h
          exact ⟨[], i :: rest, rfl, rfl, .none⟩

theorem tableOrSubselect_reads : Reads TableName tableOrSubselect := by
  intro items name n h
  unfold tableOrSubselect at h
  split at h
  · cases h
    exact ⟨[_], _, rfl, rfl, .subselect⟩
  · obtain ⟨⟨parts, k⟩, hparts, h⟩ := exists_of_bind_ok h
    cases h
    obtain ⟨used, rest, rfl, rfl, hused⟩ := dotted_reads _ _ hparts
    exact ⟨used, rest, rfl, rfl, .named hused⟩

theorem reference_reads (start : Nat) :
    Reads (fun r => r.Spans start) (reference start) := by
  intro items r n h
  obtain ⟨⟨name, k⟩, hname, h⟩ := exists_of_bind_ok h
  obtain ⟨⟨aliasName, m⟩, halias, h⟩ := exists_of_bind_ok h
  cases h
  obtain ⟨table, rest, rfl, rfl, htable⟩ := tableOrSubselect_reads hname
  rw [List.drop_left] at halias
  obtain ⟨tail, rest, rfl, rfl, htail⟩ := aliasName?_reads halias
  exact ⟨table ++ tail, rest, by simp, by simp, by simp, table, tail, rfl, htable, htail⟩

theorem joinKeywords?_spans {items : List Item} {kind : Join.Kind} {k : Nat}
    (h : joinKeywords? items = some (kind, k)) : Takes kind.Spans items k := by
  cases items with
  | nil => cases h
  | cons i rest =>
      simp only [joinKeywords?] at h
      split at h
      · rename_i hi
        cases h
        cases i with
        | token t =>
            have hkind : t.kind = .comma := by simpa [Item.hasKind, Item.kind?] using hi
            exact ⟨[.token t], rest, rfl, rfl, .inl ⟨rfl, t, rfl, hkind⟩⟩
        | subselect gap text body => exact absurd hi (by simp [Item.hasKind, Item.kind?])
      · obtain ⟨form, hform, hk⟩ := Option.map_eq_some_iff.1 h
        cases hk
        have hmem := List.mem_of_find?_eq_some hform
        have hkinds : ∀ form ∈ Join.Kind.forms, form.1 ≠ .comma := by decide
        have hstarts : startsWithWords form.2 (i :: rest) = true := by
          simpa using List.find?_some hform
        obtain ⟨used, later, hsplit, hlen, hwords⟩ := takes_words hstarts
        exact ⟨used, later, hsplit, hlen, .inr ⟨hkinds form hmem, form.2, hmem, hwords⟩⟩

theorem clause_reads (after : Option Item) (room start : Nat) :
    Reads (fun own items => Join.Clause.Spans start items own) (clause after room start) := by
  intro items own n h
  cases items with
  | nil =>
      cases h
      exact ⟨[], [], rfl, rfl, .none⟩
  | cons i rest =>
      simp only [clause] at h
      split at h
      · rename_i hon
        obtain ⟨⟨tree, k⟩, htree, h⟩ := exists_of_bind_ok h
        cases h
        obtain ⟨cond, later, rfl, rfl, hcond⟩ := condition_reads after room htree
        refine ⟨i :: cond, later, rfl, Nat.add_comm _ _, ?_⟩
        rw [← Nat.add_assoc]
        exact .on hon hcond
      · split at h
        · rename_i husing
          obtain ⟨⟨u, k⟩, hopen, h⟩ := exists_of_bind_ok h
          obtain ⟨⟨columns, m⟩, hcolumns, h⟩ := exists_of_bind_ok h
          obtain ⟨⟨u, j⟩, hclose, h⟩ := exists_of_bind_ok h
          cases h
          obtain ⟨first, later, rfl, rfl, opening, rfl, hopening⟩ := expect_reads _ _ hopen
          rw [List.drop_left] at hcolumns
          obtain ⟨names, later, rfl, rfl, hnames⟩ := columns_reads _ hcolumns
          rw [← List.append_assoc, ← List.length_append, List.drop_left] at hclose
          obtain ⟨last, later, rfl, rfl, closing, rfl, hclosing⟩ := expect_reads _ _ hclose
          exact ⟨i :: opening :: (names ++ [closing]), later, by simp, by simp; omega,
            .using husing hopening hnames hclosing⟩
        · cases h
          exact ⟨[], i :: rest, rfl, rfl, .none⟩

theorem join_reads (after : Option Item) (room start : Nat) :
    Reads (fun j items => j.Spans start items) (join after room start) := by
  intro items j n h
  unfold join at h
  split at h
  · cases h
  · rename_i kind k hkeywords
    obtain ⟨⟨table, m⟩, htable, h⟩ := exists_of_bind_ok h
    obtain ⟨⟨own, o⟩, hown, h⟩ := exists_of_bind_ok h
    cases h
    obtain ⟨keyword, rest, rfl, rfl, hkeyword⟩ := joinKeywords?_spans hkeywords
    rw [List.drop_left] at htable
    obtain ⟨tables, rest, rfl, rfl, hspans⟩ := reference_reads _ htable
    rw [← List.append_assoc, ← List.length_append, List.drop_left] at hown
    obtain ⟨owns, rest, rfl, rfl, hclause⟩ := clause_reads _ _ _ hown
    refine ⟨keyword ++ tables ++ owns, rest, by simp, by simp [Nat.add_assoc], ?_⟩
    rw [List.length_append] at hclause
    exact .intro hkeyword rfl hspans hclause (by simp [Nat.add_assoc])

theorem joins_spans {after : Option Item} {room limit left start : Nat} {items : List Item}
    {js : List Join} (h : joins after room limit left start items = .ok js) :
    Join.ListSpans start items js := by
  induction left generalizing start items js with
  | zero =>
      cases items with
      | nil =>
          cases h
          exact .nil
      | cons i items => cases h
  | succ left ih =>
      cases items with
      | nil =>
          cases h
          exact .nil
      | cons i items =>
          obtain ⟨⟨first, n⟩, hfirst, h⟩ := exists_of_bind_ok h
          obtain ⟨more, hmore, h⟩ := exists_of_bind_ok h
          cases h
          obtain ⟨used, rest, hsplit, rfl, hspans⟩ := join_reads _ _ _ hfirst
          rw [hsplit] at hmore ⊢
          rw [List.drop_left] at hmore
          exact .cons hspans (ih hmore)

end Reading

namespace References

variable {room maxJoins start : Nat} {items : List Item} {after : Option Item} {r : References}

theorem parse_eq_ok : parse room maxJoins start items after = .ok r ↔
    ∃ n, Reading.reference start items = .ok (r.first, n) ∧
      Reading.joins after room maxJoins maxJoins (start + n) (items.drop n) = .ok r.joins := by
  constructor
  · intro h
    obtain ⟨⟨first, n⟩, hfirst, h⟩ := exists_of_bind_ok h
    obtain ⟨joins, hjoins, h⟩ := exists_of_bind_ok h
    cases h
    cases hread : Reading.reference start items with
    | error e =>
        rw [hread] at hfirst
        cases hfirst
    | ok a =>
        rw [hread] at hfirst
        cases hfirst
        exact ⟨n, rfl, hjoins⟩
  · rintro ⟨n, hfirst, hjoins⟩
    simp only [parse, hfirst, mapError_ok, bind, Except.bind, hjoins]

theorem parse_spans (h : parse room maxJoins start items after = .ok r) :
    ∃ head rest, items = head ++ rest ∧ r.Spans start head rest := by
  obtain ⟨n, hfirst, hjoins⟩ := parse_eq_ok.1 h
  obtain ⟨used, rest, rfl, rfl, hspans⟩ := Reading.reference_reads start hfirst
  rw [List.drop_left] at hjoins
  exact ⟨used, rest, rfl, hspans, Reading.joins_spans hjoins⟩

end References

end SoftDelete
