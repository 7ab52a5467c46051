import SoftDelete.Proofs.Join.Limits

namespace SoftDelete

open Reading

theorem not_constant_of_mark {text : Text} {q : Quote} (h : text.head? = some q.mark) :
    constantWords.any (Text.sameWord text) = false := by
  have hheads : ∀ word ∈ constantWords, word.head?.map Char.toLower ≠ some q.mark.toLower := by
    cases q <;> decide
  refine List.any_eq_false.2 fun word hword hsame => hheads word hword ?_
  have hlower : text.map Char.toLower = word.map Char.toLower := by
    simpa [Text.sameWord] using hsame
  rw [← List.head?_map, ← hlower, List.head?_map, h, Option.map_some]

theorem Operand.arePlain_iff {values : List Operand} :
    Operand.arePlain values = true ↔ ∀ v ∈ values, v.isPlain = true := by
  induction values with
  | nil => simp [Operand.arePlain]
  | cons v values ih => simp [Operand.arePlain, ih]

theorem Operand.areClear_iff {values : List Operand} :
    Operand.areClear values = true ↔ ∀ v ∈ values, v.isClear = true := by
  induction values with
  | nil => simp [Operand.areClear]
  | cons v values ih => simp [Operand.areClear, ih]

namespace Reading

variable {after : Option Item} {room : Nat}

theorem linked_ne_nil {α β : Type} {element : List Item → Except Failure (α × Nat)}
    {link? : Item → Option β} {i : Item} {b : β} {rest : List Item} {xs : List (β × α)} {n : Nat}
    (hi : link? i = some b) (h : linked element link? (i :: rest) = .ok (xs, n)) : xs ≠ [] := by
  rw [linked, hi] at h
  obtain ⟨⟨first, k⟩, -, h⟩ := exists_of_bind_ok h
  obtain ⟨⟨more, m⟩, -, h⟩ := exists_of_bind_ok h
  cases h
  simp

theorem namedOperand_of_dot {i dot : Item} {rest : List Item} {text : Text} {n : Nat}
    (hdot : dot.hasKind .dot = true) :
    namedOperand (i :: dot :: rest) ≠ .ok (.column [text], n) := by
  intro h
  have hlparen : dot.hasKind .lparen = false := Item.hasKind_eq_false hdot (by simp)
  obtain ⟨⟨first, k⟩, hfirst, h⟩ := exists_of_bind_ok h
  obtain ⟨used, later, hsplit, rfl, j, rfl, -⟩ := name_reads _ hfirst
  obtain ⟨rfl, rfl⟩ := List.cons.inj hsplit
  simp only [List.length_singleton, List.drop_one, List.tail_cons, hlparen, Bool.false_eq_true,
    if_false] at h
  obtain ⟨⟨parts, m⟩, hparts, h⟩ := exists_of_bind_ok h
  have hmark : mark? .dot dot = some () := by simp [mark?, hdot]
  cases parts with
  | nil => exact linked_ne_nil hmark hparts rfl
  | cons part parts => cases h

theorem column_of_operand {i : Item} {rest : List Item} {texts : List Text} {n : Nat}
    (h : operand after room (i :: rest) = .ok (.column texts, n))
    (hshown : Shown after (i :: rest)) :
    (Operand.column texts).isPlain = true ∧ (Operand.column texts).isClear = true := by
  obtain ⟨used, later, hsplit, -, hused⟩ := operand_reads after room h
  cases hused with
  | column hnames =>
      obtain ⟨j, text, xs, more, rfl, rfl, hj, hlinked⟩ := hnames
      obtain ⟨rfl, rfl⟩ := List.cons.inj hsplit
      obtain rfl := Item.text_of_freeName? hj
      have hshows := hshown.shows i (by simp)
      have hconstant : constantWords.any (Text.sameWord i.text) = false := by
        obtain ⟨t, rfl, hname, -⟩ := Item.freeName?_eq_some hj
        refine Bool.eq_false_iff.2 fun hword => ?_
        cases hkind : t.kind with
        | word =>
            have hi : (Item.token t).hasKind .word = true := by
              simp [Item.hasKind, Item.kind?, hkind]
            rw [operand_of_constant hi hword] at h
            cases h
        | quoted q =>
            have hi : (Item.token t).hasKind (.quoted q) = true := by
              simp [Item.hasKind, Item.kind?, hkind]
            exact absurd hword (by simp [not_constant_of_mark ((hshows q).1 hi)])
        | _ => simp [Token.canName, hkind] at hname
      cases hlinked with
      | cons => exact ⟨by simpa [Operand.isPlain] using hconstant, rfl⟩
      | nil =>
          refine ⟨rfl, ?_⟩
          have hmark (q : Quote) (hq : q ≠ .backtick) : i.text.head? ≠ some q.mark := by
            intro hhead
            rw [operand_of_quoted ((hshows q).2 hhead) hq] at h
            split at h
            · rename_i hdot
              cases later with
              | nil => exact absurd hdot (by simpa using hshown.dotless)
              | cons d later => exact namedOperand_of_dot (by simpa using hdot) h
            · cases h
          simp [Operand.isClear, isLiteral, hconstant, hmark]

theorem operand_clear {items : List Item} (hshown : Shown after items) :
    CutTo (fun v => v.isPlain = true ∧ v.isClear = true) (operand after room items)
      (operand after room items) := by
  induction room using Nat.strongRecOn generalizing items with
  | ind room ih =>
      cases items with
      | nil => exact .refl fun v n hv => by simp [operand] at hv
      | cons i rest =>
          cases hi : i.hasKind .lparen with
          | false =>
              refine .refl fun v n hv => ?_
              have hlist := isList_of_operand hi hv
              cases v with
              | column texts => exact column_of_operand hv hshown
              | list values => cases hlist
              | _ => exact ⟨rfl, rfl⟩
          | true =>
              rw [operand_of_lparen hi]
              cases room with
              | zero => exact .error _ fun _ _ h => by cases h
              | succ room =>
                  have hvalues : CutTo (fun vs => ∀ v ∈ vs, v.isPlain = true ∧ v.isClear = true)
                      (separated (operand after room) .comma rest)
                      (separated (operand after room) .comma rest) :=
                    separated_cutTo fun tail htail => ih room (Nat.lt_succ_self room)
                      (hshown.mono fun j hj => List.mem_cons_of_mem i (htail.subset hj))
                  refine .refl fun v n hv => ?_
                  obtain ⟨⟨values, k⟩, hread, hv⟩ := exists_of_bind_ok hv
                  obtain ⟨⟨u, m⟩, -, hv⟩ := exists_of_bind_ok hv
                  cases hv
                  have hall := ((hvalues values k).1 hread).2
                  exact ⟨Operand.arePlain_iff.2 fun v hv => (hall v hv).1,
                    Operand.areClear_iff.2 fun v hv => (hall v hv).2⟩

theorem comparison_clear {i : Item} {rest : List Item} (hi : i.hasKind .lparen = false)
    (hshown : Shown after (i :: rest)) :
    CutTo (fun c => c.isPlain = true ∧ c.isClear = true) (comparison after room (i :: rest))
      (comparison after room (i :: rest)) := by
  refine .refl fun c n hc => ?_
  obtain ⟨⟨lhs, k⟩, hlhs, hc⟩ := exists_of_bind_ok hc
  obtain ⟨⟨op, m⟩, -, hc⟩ := exists_of_bind_ok hc
  obtain ⟨⟨rhs, l⟩, hrhs, hc⟩ := exists_of_bind_ok hc
  cases hc
  obtain ⟨-, hleft, hleft'⟩ := (operand_clear hshown lhs k).1 hlhs
  obtain ⟨-, hright, hright'⟩ :=
    (operand_clear (hshown.mono fun j hj => List.mem_of_mem_drop hj) rhs l).1 hrhs
  simp [Condition.isPlain, Condition.isClear, isList_of_operand hi hlhs, hleft, hleft', hright,
    hright']

theorem join_clear (k : Connective) (c d : Condition) :
    (k.join c d).isPlain = true ∧ (k.join c d).isClear = true ↔
      (c.isPlain = true ∧ c.isClear = true) ∧ d.isPlain = true ∧ d.isClear = true := by
  rw [k.join_isPlain, k.join_isClear]
  simp [and_and_and_comm]

theorem term_clear {items : List Item} (hshown : Shown after items) :
    CutTo (fun c => c.isPlain = true ∧ c.isClear = true) (term after room items)
      (term after room items) := by
  induction room using Nat.strongRecOn generalizing items with
  | ind room ih =>
      cases items with
      | nil => exact .refl fun c n hc => by simp [term, comparison, operand, bind, Except.bind] at hc
      | cons i rest =>
          have hrest := hshown.mono fun j hj => List.mem_cons_of_mem i hj
          cases hnot : i.spells "NOT" with
          | true =>
              rw [term_of_not hnot]
              cases room with
              | zero => exact .error _ fun _ _ h => by cases h
              | succ room =>
                  refine .refl fun c n hc => ?_
                  obtain ⟨⟨inner, k⟩, hread, hc⟩ := exists_of_bind_ok hc
                  cases hc
                  exact ((ih room (Nat.lt_succ_self room) hrest inner k).1 hread).2
          | false =>
              cases hi : i.hasKind .lparen with
              | false =>
                  rw [term_of_comparison hnot hi]
                  exact comparison_clear hi hshown
              | true =>
                  rw [term_of_lparen hnot hi]
                  cases room with
                  | zero => exact .error _ fun _ _ h => by cases h
                  | succ room =>
                      have hinner := connected_cutTo join_clear fun tail htail =>
                        ih room (Nat.lt_succ_self room) (hrest.mono fun j hj => htail.subset hj)
                      refine .refl fun c n hc => ?_
                      obtain ⟨⟨inner, k⟩, hread, hc⟩ := exists_of_bind_ok hc
                      obtain ⟨⟨u, m⟩, -, hc⟩ := exists_of_bind_ok hc
                      cases hc
                      exact ((hinner inner k).1 hread).2

theorem condition_clear {items : List Item} (hshown : Shown after items) :
    CutTo (fun c => c.isPlain = true ∧ c.isClear = true) (condition after room items)
      (condition after room items) :=
  connected_cutTo join_clear fun _ htail => term_clear (hshown.mono fun _ hj => htail.subset hj)

end Reading

def Join.Clause.Steady (room : Nat) (own : Option Join.Clause) : Prop :=
  Join.Clause.Fits room own ∧ Join.Clause.isClear own = true

namespace Reading

variable {after : Option Item} {room start : Nat} {items : List Item}

theorem clause_steady {own : Option Join.Clause} {n : Nat} (hshown : Shown after items)
    (h : clause after room start items = .ok (own, n)) : Join.Clause.Steady room own := by
  cases items with
  | nil =>
      cases h
      exact ⟨trivial, rfl⟩
  | cons i rest =>
      simp only [clause] at h
      split at h
      · obtain ⟨⟨tree, k⟩, hread, h⟩ := exists_of_bind_ok h
        cases h
        have hrest := hshown.mono fun j hj => List.mem_cons_of_mem i hj
        obtain ⟨-, hplain, hclear⟩ := (condition_clear hrest tree k).1 hread
        obtain ⟨-, hnesting⟩ := (condition_cutTo (Nat.le_refl room) rest tree k).1 hread
        exact ⟨⟨hplain, hnesting⟩, hclear⟩
      · split at h
        · obtain ⟨⟨u, k⟩, -, h⟩ := exists_of_bind_ok h
          obtain ⟨⟨columns, m⟩, -, h⟩ := exists_of_bind_ok h
          obtain ⟨⟨u, l⟩, -, h⟩ := exists_of_bind_ok h
          cases h
          exact ⟨trivial, rfl⟩
        · cases h
          exact ⟨trivial, rfl⟩

theorem join_steady {j : Join} {n : Nat} (hshown : Shown after items)
    (h : join after room start items = .ok (j, n)) : Join.Clause.Steady room j.clause := by
  unfold join at h
  split at h
  · cases h
  · obtain ⟨⟨table, k⟩, -, h⟩ := exists_of_bind_ok h
    obtain ⟨⟨own, m⟩, hown, h⟩ := exists_of_bind_ok h
    cases h
    exact clause_steady (hshown.mono fun i hi => List.mem_of_mem_drop hi) hown

theorem joins_steady {limit left : Nat} {js : List Join} (hshown : Shown after items)
    (h : joins after room limit left start items = .ok js) :
    ∀ j ∈ js, Join.Clause.Steady room j.clause := by
  induction js generalizing left start items with
  | nil => simp
  | cons j js ih =>
      cases items with
      | nil =>
          simp only [joins] at h
          cases h
      | cons i rest =>
          obtain ⟨l, first, n, more, -, hfirst, hmore, hjs⟩ := joins_eq_ok.1 h
          obtain ⟨rfl, rfl⟩ := List.cons.inj hjs
          exact List.forall_mem_cons.2 ⟨join_steady hshown hfirst,
            ih (hshown.mono fun i hi => List.mem_of_mem_drop hi) hmore⟩

end Reading

theorem References.parse_steady {room maxJoins start : Nat} {items : List Item}
    {after : Option Item} {r : References} (hshown : Shown after items)
    (h : parse room maxJoins start items after = .ok r) :
    ∀ j ∈ r.joins, Join.Clause.Steady room j.clause := by
  obtain ⟨n, -, hjoins⟩ := parse_eq_ok.1 h
  exact joins_steady (hshown.mono fun i hi => List.mem_of_mem_drop hi) hjoins

end SoftDelete
