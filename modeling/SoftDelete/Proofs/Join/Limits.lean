import SoftDelete.Proofs.Join.Completeness
import SoftDelete.Sql.Lexed

namespace SoftDelete

open Reading

/-- `x` gives those of the values of `y` that fit. -/
def CutTo {α : Type} (fits : α → Prop) (x y : Except Failure (α × Nat)) : Prop :=
  ∀ a n, x = .ok (a, n) ↔ y = .ok (a, n) ∧ fits a

namespace CutTo

variable {α β : Type} {P : α → Prop} {Q : β → Prop} {x y : Except Failure (α × Nat)}

theorem refl (h : ∀ a n, x = .ok (a, n) → P a) : CutTo P x x :=
  fun a n => ⟨fun hx => ⟨hx, h a n hx⟩, And.left⟩

theorem error (e : Failure) (h : ∀ a n, y = .ok (a, n) → ¬ P a) : CutTo P (.error e) y :=
  fun a n => ⟨nofun, fun hy => absurd hy.2 (h a n hy.1)⟩

theorem bind {f g : α × Nat → Except Failure (β × Nat)} (hx : CutTo P x y)
    (hf : ∀ a n, P a → CutTo Q (f (a, n)) (g (a, n)))
    (hback : ∀ a n b m, g (a, n) = .ok (b, m) → Q b → P a) : CutTo Q (x >>= f) (y >>= g) := by
  intro b m
  constructor
  · intro h
    obtain ⟨⟨a, n⟩, ha, hb⟩ := exists_of_bind_ok h
    obtain ⟨hy, hfits⟩ := (hx a n).1 ha
    obtain ⟨hg, hQ⟩ := (hf a n hfits b m).1 hb
    rw [hy]
    exact ⟨hg, hQ⟩
  · rintro ⟨h, hQ⟩
    obtain ⟨⟨a, n⟩, ha, hb⟩ := exists_of_bind_ok h
    have hfits := hback a n b m hb hQ
    rw [(hx a n).2 ⟨ha, hfits⟩]
    exact (hf a n hfits b m).2 ⟨hb, hQ⟩

theorem bind_same {γ : Type} {z : Except Failure (γ × Nat)}
    {f g : γ × Nat → Except Failure (β × Nat)} (hf : ∀ c n, CutTo Q (f (c, n)) (g (c, n))) :
    CutTo Q (z >>= f) (z >>= g) :=
  (refl (P := fun _ => True) fun _ _ _ => trivial).bind (fun c n _ => hf c n)
    fun _ _ _ _ _ _ => trivial

theorem nested (depth : α → Nat) {depth' : β → Nat} (outer : Nat → Except Failure (β × Nat))
    {inner : Nat → Except Failure (α × Nat)} {f : α × Nat → Except Failure (β × Nat)}
    {room room' : Nat} (hroom : room ≤ room') (hzero : outer 0 = .error nestedTooDeep)
    (hsucc : ∀ r, outer (r + 1) = inner r >>= f)
    (hdepth : ∀ {a n b m}, f (a, n) = .ok (b, m) → depth' b = depth a + 1)
    (hinner : ∀ {r r'}, room = r + 1 → r ≤ r' → CutTo (depth · ≤ r) (inner r) (inner r')) :
    CutTo (depth' · ≤ room) (outer room) (outer room') := by
  have hwrap : ∀ {r b m}, outer (r + 1) = .ok (b, m) → ∃ a, depth' b = depth a + 1 := by
    intro r b m h
    rw [hsucc] at h
    obtain ⟨⟨a, n⟩, -, hb⟩ := exists_of_bind_ok h
    exact ⟨a, hdepth hb⟩
  cases room with
  | zero =>
      rw [hzero]
      refine .error _ fun b m h => ?_
      cases room' with
      | zero =>
          rw [hzero] at h
          cases h
      | succ room' =>
          obtain ⟨a, ha⟩ := hwrap h
          omega
  | succ room =>
      cases room' with
      | zero => exact absurd hroom (Nat.not_succ_le_zero room)
      | succ room' =>
          rw [hsucc, hsucc]
          refine (hinner rfl (Nat.le_of_succ_le_succ hroom)).bind (fun a n ha => .refl ?_) ?_
          · intro b m hb
            rw [hdepth hb]
            exact Nat.succ_le_succ ha
          · intro a n b m hb hfits
            rw [hdepth hb] at hfits
            exact Nat.le_of_succ_le_succ hfits

end CutTo

section Nesting

variable {room : Nat}

theorem Operand.listNesting_le {values : List Operand} :
    Operand.listNesting values ≤ room ↔ ∀ v ∈ values, v.nesting ≤ room := by
  induction values with
  | nil => simp [Operand.listNesting]
  | cons v values ih => simp only [Operand.listNesting, Nat.max_le, List.forall_mem_cons, ih]

theorem Connective.foldl_join {P : Condition → Prop}
    (hjoin : ∀ (k : Connective) c d, P (k.join c d) ↔ P c ∧ P d) {first : Condition}
    {more : List (Connective × Condition)} :
    P (more.foldl (fun lhs step => step.1.join lhs step.2) first) ↔
      P first ∧ ∀ x ∈ more, P x.2 := by
  induction more generalizing first with
  | nil => simp
  | cons x more ih => simp [ih, hjoin, and_assoc]

def Join.Clause.NestsWithin (room : Nat) : Option Join.Clause → Prop
  | some (.on tree _) => tree.nesting ≤ room
  | _ => True

instance : DecidablePred (Join.Clause.NestsWithin room)
  | some (.on tree _) => inferInstanceAs (Decidable (tree.nesting ≤ room))
  | some (.using _) | none => isTrue trivial

end Nesting

namespace Reading

section Lists

variable {α β : Type} {element element' : List Item → Except Failure (α × Nat)}
  {link? : Item → Option β} {P : α → Prop}

theorem linked_cutTo {items : List Item}
    (h : ∀ tail, tail <:+ items → CutTo P (element tail) (element' tail)) :
    CutTo (fun xs => ∀ x ∈ xs, P x.2) (linked element link? items)
      (linked element' link? items) := by
  fun_induction linked element link? items with
  | case1 =>
      rw [linked]
      exact .refl (by rintro xs n ⟨⟩; simp)
  | case2 i rest hlink =>
      rw [linked, hlink]
      exact .refl (by rintro xs n ⟨⟩; simp)
  | case3 i rest link hlink ih =>
      rw [linked, hlink]
      have hmore (n : Nat) := ih n fun tail htail =>
        h tail ((htail.trans (List.drop_suffix n rest)).trans (List.suffix_cons i rest))
      refine (h rest (List.suffix_cons i rest)).bind
        (fun first n hfirst => (hmore n).bind (fun more m hmore => ?_) ?_) ?_
      · refine .refl ?_
        rintro xs k ⟨⟩
        exact List.forall_mem_cons.2 ⟨hfirst, hmore⟩
      · rintro more m xs k ⟨⟩ hxs x hx
        exact hxs x (List.mem_cons_of_mem _ hx)
      · intro first n xs k hxs hfits
        obtain ⟨⟨more, m⟩, -, hlater⟩ := exists_of_bind_ok hxs
        cases hlater
        exact hfits (link, first) (by simp)

theorem linked_drop_cutTo {items : List Item} (n : Nat)
    (h : ∀ tail, tail <:+ items → CutTo P (element tail) (element' tail)) :
    CutTo (fun xs => ∀ x ∈ xs, P x.2) (linked element link? (items.drop n))
      (linked element' link? (items.drop n)) :=
  linked_cutTo fun tail htail => h tail (htail.trans (List.drop_suffix n items))

theorem separated_cutTo {mark : Token.Kind} {items : List Item}
    (h : ∀ tail, tail <:+ items → CutTo P (element tail) (element' tail)) :
    CutTo (fun xs => ∀ x ∈ xs, P x) (separated element mark items)
      (separated element' mark items) := by
  refine (h items List.suffix_rfl).bind
    (fun first n hfirst => (linked_drop_cutTo n h).bind (fun more m hmore => ?_) ?_) ?_
  · refine .refl ?_
    rintro xs k ⟨⟩
    exact List.forall_mem_cons.2 ⟨hfirst, List.forall_mem_map.2 hmore⟩
  · rintro more m xs k ⟨⟩ hxs x hx
    exact hxs x.2 (List.mem_cons_of_mem _ (List.mem_map_of_mem hx))
  · intro first n xs k hxs hfits
    obtain ⟨⟨more, m⟩, -, hlater⟩ := exists_of_bind_ok hxs
    cases hlater
    exact hfits first (by simp)

theorem connected_cutTo {term term' : List Item → Except Failure (Condition × Nat)}
    {P : Condition → Prop} {items : List Item}
    (hjoin : ∀ (k : Connective) c d, P (k.join c d) ↔ P c ∧ P d)
    (h : ∀ tail, tail <:+ items → CutTo P (term tail) (term' tail)) :
    CutTo P (connected term items) (connected term' items) := by
  refine (h items List.suffix_rfl).bind
    (fun first n hfirst => (linked_drop_cutTo n h).bind (fun more m hmore => ?_) ?_) ?_
  · refine .refl ?_
    rintro c k ⟨⟩
    exact (Connective.foldl_join hjoin).2 ⟨hfirst, hmore⟩
  · rintro more m c k ⟨⟩ hfits
    exact ((Connective.foldl_join hjoin).1 hfits).2
  · intro first n c k hc hfits
    obtain ⟨⟨more, m⟩, -, hc⟩ := exists_of_bind_ok hc
    cases hc
    exact ((Connective.foldl_join hjoin).1 hfits).1

theorem linked_congr (link? : Item → Option β) {items : List Item}
    (h : ∀ tail, tail <:+ items → element tail = element' tail) :
    linked element link? items = linked element' link? items := by
  fun_induction linked element link? items with
  | case1 => rw [linked]
  | case2 i rest hlink => rw [linked, hlink]
  | case3 i rest link hlink ih =>
      rw [linked, hlink, h rest (List.suffix_cons i rest)]
      refine bind_congr ?_
      rintro ⟨first, n⟩
      have hlater := ih n fun tail htail =>
        h tail ((htail.trans (List.drop_suffix n rest)).trans (List.suffix_cons i rest))
      simp only [hlater]

theorem separated_congr {mark : Token.Kind} {items : List Item}
    (h : ∀ tail, tail <:+ items → element tail = element' tail) :
    separated element mark items = separated element' mark items := by
  rw [separated, separated, h items List.suffix_rfl]
  refine bind_congr ?_
  rintro ⟨first, n⟩
  have hlater := linked_congr (mark? mark) fun tail htail =>
    h tail (htail.trans (List.drop_suffix n items))
  simp only [hlater]

theorem connected_congr {term term' : List Item → Except Failure (Condition × Nat)}
    {items : List Item} (h : ∀ tail, tail <:+ items → term tail = term' tail) :
    connected term items = connected term' items := by
  rw [connected, connected, h items List.suffix_rfl]
  refine bind_congr ?_
  rintro ⟨first, n⟩
  have hlater := linked_congr Connective.ofItem? fun tail htail =>
    h tail (htail.trans (List.drop_suffix n items))
  simp only [hlater]

end Lists

section Conditions

variable {after : Option Item} {room room' : Nat}

theorem isList_of_operand {i : Item} {rest : List Item} {value : Operand} {n : Nat}
    (hi : i.hasKind .lparen = false) (h : operand after room (i :: rest) = .ok (value, n)) :
    value.isList = false := by
  obtain ⟨used, later, hsplit, -, hused⟩ := operand_reads after room h
  cases hused with
  | list hopening _ _ =>
      obtain ⟨rfl, -⟩ := List.cons.inj hsplit
      rw [hi] at hopening
      cases hopening
  | _ => rfl

theorem nesting_of_operand {i : Item} {rest : List Item} {value : Operand} {n : Nat}
    (hi : i.hasKind .lparen = false) (h : operand after room (i :: rest) = .ok (value, n)) :
    value.nesting = 0 := by
  have hlist := isList_of_operand hi h
  cases value with
  | list values => cases hlist
  | _ => rfl

theorem operand_of_not_lparen {i : Item} (hi : i.hasKind .lparen = false) (rest : List Item) :
    operand after room (i :: rest) = operand after room' (i :: rest) := by
  unfold operand
  cases hkind : i.kind? with
  | none => rfl
  | some kind =>
      cases kind with
      | lparen => simp [Item.hasKind, hkind] at hi
      | quoted q => cases q <;> rfl
      | _ => rfl

theorem operand_of_lparen {i : Item} (hi : i.hasKind .lparen = true) (rest : List Item) :
    operand after room (i :: rest) =
      match room with
      | 0 => .error nestedTooDeep
      | room + 1 => (do
          let (values, n) ← separated (operand after room) .comma rest
          let (_, m) ← expect .rparen "expected `)` closing value list" (rest.drop n)
          .ok (.list values, 1 + n + m)) := by
  rw [operand.eq_def]
  cases room <;> simp only [Item.kind?_of_hasKind hi]

theorem term_of_not {i : Item} (hi : i.spells "NOT" = true) (rest : List Item) :
    term after room (i :: rest) =
      match room with
      | 0 => .error nestedTooDeep
      | room + 1 => (do
          let (inner, n) ← term after room rest
          .ok (.not inner, 1 + n)) := by
  rw [term.eq_def]
  cases room <;> simp only [hi, if_true]

theorem term_of_lparen {i : Item} (hnot : i.spells "NOT" = false) (hi : i.hasKind .lparen = true)
    (rest : List Item) :
    term after room (i :: rest) =
      match room with
      | 0 => .error nestedTooDeep
      | room + 1 => (do
          let (inner, n) ← connected (term after room) rest
          let (_, m) ← expect .rparen "expected `)` in join condition" (rest.drop n)
          .ok (.group inner, 1 + n + m)) := by
  rw [term.eq_def]
  cases room <;> simp only [hnot, hi, Bool.false_eq_true, if_false, if_true]

theorem operand_cutTo (hroom : room ≤ room') (items : List Item) :
    CutTo (·.nesting ≤ room) (operand after room items) (operand after room' items) := by
  induction room using Nat.strongRecOn generalizing room' items with
  | ind room ih =>
      cases items with
      | nil => exact fun v n => by simp [operand]
      | cons i rest =>
          cases hi : i.hasKind .lparen with
          | false =>
              rw [show operand after room (i :: rest) = operand after room' (i :: rest) from
                operand_of_not_lparen hi rest]
              refine .refl fun v n hv => ?_
              rw [nesting_of_operand hi hv]
              exact Nat.zero_le _
          | true =>
              refine CutTo.nested Operand.listNesting (fun r => operand after r (i :: rest)) hroom
                (operand_of_lparen hi rest) (fun r => operand_of_lparen hi rest) ?_ ?_
              · intro values n v k hv
                obtain ⟨⟨u, m⟩, -, hv⟩ := exists_of_bind_ok hv
                cases hv
                rfl
              · rintro r r' rfl hle
                simp only [Operand.listNesting_le]
                exact separated_cutTo fun tail _ => ih r (Nat.lt_succ_self r) hle tail

theorem comparison_cutTo (hroom : room ≤ room') (items : List Item) :
    CutTo (·.nesting ≤ room) (comparison after room items) (comparison after room' items) := by
  refine (operand_cutTo hroom items).bind (fun lhs n hlhs => .bind_same fun op m => ?_) ?_
  · refine (operand_cutTo hroom _).bind (fun rhs k hrhs => .refl ?_) ?_
    · rintro c j ⟨⟩
      exact Nat.max_le.2 ⟨hlhs, hrhs⟩
    · rintro rhs k c j ⟨⟩ hfits
      exact (Nat.max_le.1 hfits).2
  · intro lhs n c k hc hfits
    obtain ⟨⟨op, m⟩, -, hc⟩ := exists_of_bind_ok hc
    obtain ⟨⟨rhs, j⟩, -, hc⟩ := exists_of_bind_ok hc
    cases hc
    exact (Nat.max_le.1 hfits).1

theorem join_nesting_le (k : Connective) (c d : Condition) :
    (k.join c d).nesting ≤ room ↔ c.nesting ≤ room ∧ d.nesting ≤ room := by
  rw [Connective.join_nesting, Nat.max_le]

theorem term_cutTo (hroom : room ≤ room') (items : List Item) :
    CutTo (·.nesting ≤ room) (term after room items) (term after room' items) := by
  induction room using Nat.strongRecOn generalizing room' items with
  | ind room ih =>
      cases items with
      | nil =>
          unfold term
          exact comparison_cutTo hroom []
      | cons i rest =>
          cases hnot : i.spells "NOT" with
          | true =>
              refine CutTo.nested Condition.nesting (fun r => term after r (i :: rest)) hroom
                (term_of_not hnot rest) (fun r => term_of_not hnot rest) ?_ ?_
              · rintro inner n c k ⟨⟩
                rfl
              · rintro r r' rfl hle
                exact ih r (Nat.lt_succ_self r) hle rest
          | false =>
              cases hi : i.hasKind .lparen with
              | true =>
                  refine CutTo.nested Condition.nesting (fun r => term after r (i :: rest)) hroom
                    (term_of_lparen hnot hi rest) (fun r => term_of_lparen hnot hi rest) ?_ ?_
                  · intro inner n c k hc
                    obtain ⟨⟨u, m⟩, -, hc⟩ := exists_of_bind_ok hc
                    cases hc
                    rfl
                  · rintro r r' rfl hle
                    exact connected_cutTo join_nesting_le fun tail _ => ih r (Nat.lt_succ_self r) hle tail
              | false =>
                  rw [term_of_comparison hnot hi, term_of_comparison hnot hi]
                  exact comparison_cutTo hroom (i :: rest)

theorem condition_cutTo (hroom : room ≤ room') (items : List Item) :
    CutTo (·.nesting ≤ room) (condition after room items) (condition after room' items) :=
  connected_cutTo join_nesting_le fun tail _ => term_cutTo hroom tail

end Conditions

section Enough

variable {after : Option Item} {room room' : Nat} {items : List Item}

theorem operand_of_enough (h : items.length ≤ room) (h' : items.length ≤ room') :
    operand after room items = operand after room' items := by
  induction room generalizing room' items with
  | zero =>
      obtain rfl := List.eq_nil_of_length_eq_zero (Nat.le_zero.1 h)
      simp [operand]
  | succ room ih =>
      cases items with
      | nil => simp [operand]
      | cons i rest =>
          obtain ⟨room', rfl⟩ := Nat.exists_eq_add_of_le' (Nat.le_trans (Nat.le_add_left 1 _) h')
          cases hi : i.hasKind .lparen with
          | false => exact operand_of_not_lparen hi rest
          | true =>
              have hvalues : separated (operand after room) .comma rest =
                  separated (operand after room') .comma rest :=
                separated_congr fun tail htail =>
                  ih (Nat.le_trans htail.length_le (Nat.le_of_succ_le_succ h))
                    (Nat.le_trans htail.length_le (Nat.le_of_succ_le_succ h'))
              rw [operand_of_lparen hi, operand_of_lparen hi]
              simp only [hvalues]

theorem comparison_of_enough (h : items.length ≤ room) (h' : items.length ≤ room') :
    comparison after room items = comparison after room' items := by
  have hlater (n : Nat) : (items.drop n).length ≤ items.length := by simp
  rw [comparison, comparison, operand_of_enough h h']
  refine bind_congr ?_
  rintro ⟨lhs, n⟩
  refine bind_congr ?_
  rintro ⟨op, m⟩
  simp only [operand_of_enough (Nat.le_trans (hlater (n + m)) h) (Nat.le_trans (hlater (n + m)) h')]

theorem term_of_enough (h : items.length ≤ room) (h' : items.length ≤ room') :
    term after room items = term after room' items := by
  induction room generalizing room' items with
  | zero =>
      obtain rfl := List.eq_nil_of_length_eq_zero (Nat.le_zero.1 h)
      rw [term.eq_def, term.eq_def]
      exact comparison_of_enough h h'
  | succ room ih =>
      cases items with
      | nil =>
          rw [term.eq_def, term.eq_def]
          exact comparison_of_enough h h'
      | cons i rest =>
          obtain ⟨room', rfl⟩ := Nat.exists_eq_add_of_le' (Nat.le_trans (Nat.le_add_left 1 _) h')
          have hrest := Nat.le_of_succ_le_succ h
          have hrest' := Nat.le_of_succ_le_succ h'
          cases hnot : i.spells "NOT" with
          | true =>
              rw [term_of_not hnot, term_of_not hnot]
              simp only [ih hrest hrest']
          | false =>
              cases hi : i.hasKind .lparen with
              | true =>
                  have hinner : connected (term after room) rest = connected (term after room') rest :=
                    connected_congr fun tail htail =>
                      ih (Nat.le_trans htail.length_le hrest) (Nat.le_trans htail.length_le hrest')
                  rw [term_of_lparen hnot hi, term_of_lparen hnot hi]
                  simp only [hinner]
              | false =>
                  rw [term_of_comparison hnot hi, term_of_comparison hnot hi]
                  exact comparison_of_enough h h'

theorem condition_of_enough (h : items.length ≤ room) (h' : items.length ≤ room') :
    condition after room items = condition after room' items :=
  connected_congr fun _ htail =>
    term_of_enough (Nat.le_trans htail.length_le h) (Nat.le_trans htail.length_le h')

theorem clause_of_enough (start : Nat) (h : items.length ≤ room) (h' : items.length ≤ room') :
    clause after room start items = clause after room' start items := by
  cases items with
  | nil => rfl
  | cons i rest =>
      have hrest : condition after room rest = condition after room' rest :=
        condition_of_enough (Nat.le_of_succ_le h) (Nat.le_of_succ_le h')
      simp only [clause, hrest]

theorem join_of_enough (start : Nat) (h : items.length ≤ room) (h' : items.length ≤ room') :
    join after room start items = join after room' start items := by
  have hlater (n : Nat) : (items.drop n).length ≤ items.length := by simp
  unfold join
  split
  · rfl
  · rename_i kind k _
    refine bind_congr ?_
    rintro ⟨table, n⟩
    simp only [clause_of_enough (start + (k + n)) (Nat.le_trans (hlater (k + n)) h)
      (Nat.le_trans (hlater (k + n)) h')]

theorem joins_of_enough {limit limit' left left' start : Nat} (h : items.length ≤ room)
    (h' : items.length ≤ room') (hleft : items.length ≤ left) (hleft' : items.length ≤ left') :
    joins after room limit left start items = joins after room' limit' left' start items := by
  induction left generalizing left' start items with
  | zero =>
      obtain rfl := List.eq_nil_of_length_eq_zero (Nat.le_zero.1 hleft)
      simp [joins]
  | succ left ih =>
      cases items with
      | nil => simp [joins]
      | cons i rest =>
          obtain ⟨left', rfl⟩ := Nat.exists_eq_add_of_le' (Nat.le_trans (Nat.le_add_left 1 _) hleft')
          rw [joins, joins, join_of_enough start h h']
          cases hfirst : join after room' start (i :: rest) with
          | error e => rfl
          | ok first =>
              obtain ⟨j, n⟩ := first
              obtain ⟨used, later, hsplit, rfl, hspans⟩ := join_reads _ _ _ hfirst
              have hused := List.length_pos_iff.2 hspans.settles.ne_nil
              have hlen := congrArg List.length hsplit
              simp only [List.length_cons, List.length_append] at hlen h h' hleft hleft'
              have hmore : joins after room limit left (start + used.length) later =
                  joins after room' limit' left' (start + used.length) later :=
                ih (by omega) (by omega) (by omega) (by omega)
              simp only [bind, Except.bind, hsplit, List.drop_left, hmore]

end Enough

section Joins

variable {after : Option Item} {room room' limit limit' : Nat}

theorem clause_cutTo (hroom : room ≤ room') (start : Nat) (items : List Item) :
    CutTo (Join.Clause.NestsWithin room) (clause after room start items)
      (clause after room' start items) := by
  cases items with
  | nil => exact .refl (by rintro own n ⟨⟩; trivial)
  | cons i rest =>
      simp only [clause]
      split
      · refine (condition_cutTo hroom rest).bind (fun tree n htree => .refl ?_) ?_
        · rintro own k ⟨⟩
          exact htree
        · rintro tree n own k ⟨⟩ hfits
          exact hfits
      · split
        · refine .refl fun own n hown => ?_
          obtain ⟨⟨u, k⟩, -, hown⟩ := exists_of_bind_ok hown
          obtain ⟨⟨columns, m⟩, -, hown⟩ := exists_of_bind_ok hown
          obtain ⟨⟨u, j⟩, -, hown⟩ := exists_of_bind_ok hown
          cases hown
          trivial
        · exact .refl (by rintro own n ⟨⟩; trivial)

theorem join_cutTo (hroom : room ≤ room') (start : Nat) (items : List Item) :
    CutTo (fun j => Join.Clause.NestsWithin room j.clause) (join after room start items)
      (join after room' start items) := by
  unfold join
  split
  · exact .error _ nofun
  · refine .bind_same fun table n => ?_
    refine (clause_cutTo hroom _ _).bind (fun own m hown => .refl ?_) ?_
    · rintro j k ⟨⟩
      exact hown
    · rintro own m j k ⟨⟩ hfits
      exact hfits

theorem joins_eq_ok {left start : Nat} {i : Item} {rest : List Item} {js : List Join} :
    joins after room limit left start (i :: rest) = .ok js ↔
      ∃ l first n more, left = l + 1 ∧ join after room start (i :: rest) = .ok (first, n) ∧
        joins after room limit l (start + n) ((i :: rest).drop n) = .ok more ∧
        js = first :: more := by
  cases left with
  | zero => simp [joins]
  | succ left =>
      rw [joins]
      constructor
      · intro h
        obtain ⟨⟨first, n⟩, hfirst, h⟩ := exists_of_bind_ok h
        obtain ⟨more, hmore, h⟩ := exists_of_bind_ok h
        cases h
        exact ⟨left, first, n, more, rfl, hfirst, hmore, rfl⟩
      · rintro ⟨l, first, n, more, hl, hfirst, hmore, rfl⟩
        obtain rfl := Nat.succ.inj hl
        simp only [hfirst, bind, Except.bind, hmore]

theorem joins_cutTo (hroom : room ≤ room') {left left' : Nat} (hleft : left ≤ left')
    {start : Nat} {items : List Item} {js : List Join} :
    joins after room limit left start items = .ok js ↔
      joins after room' limit' left' start items = .ok js ∧ js.length ≤ left ∧
        ∀ j ∈ js, Join.Clause.NestsWithin room j.clause := by
  induction js generalizing left left' start items with
  | nil =>
      cases items with
      | nil => simp [joins]
      | cons i rest => simp [joins_eq_ok]
  | cons j js ih =>
      cases items with
      | nil => simp [joins]
      | cons i rest =>
          constructor
          · intro h
            obtain ⟨l, first, n, more, rfl, hfirst, hmore, hjs⟩ := joins_eq_ok.1 h
            obtain ⟨rfl, rfl⟩ := List.cons.inj hjs
            obtain ⟨l', rfl⟩ :=
              Nat.exists_eq_add_of_le' (Nat.le_trans (Nat.le_add_left 1 l) hleft)
            obtain ⟨hread, hnests⟩ := (join_cutTo hroom start _ j n).1 hfirst
            obtain ⟨hlater, hlength, hall⟩ := (ih (Nat.le_of_succ_le_succ hleft)).1 hmore
            exact ⟨joins_eq_ok.2 ⟨l', j, n, js, rfl, hread, hlater, rfl⟩,
              Nat.succ_le_succ hlength, List.forall_mem_cons.2 ⟨hnests, hall⟩⟩
          · rintro ⟨h, hlength, hall⟩
            obtain ⟨l', first, n, more, rfl, hfirst, hmore, hjs⟩ := joins_eq_ok.1 h
            obtain ⟨rfl, rfl⟩ := List.cons.inj hjs
            obtain ⟨l, rfl⟩ :=
              Nat.exists_eq_add_of_le' (Nat.le_trans (Nat.le_add_left 1 _) hlength)
            obtain ⟨hnests, hall⟩ := List.forall_mem_cons.1 hall
            exact joins_eq_ok.2 ⟨l, j, n, js, rfl, (join_cutTo hroom start _ j n).2 ⟨hfirst, hnests⟩,
              (ih (Nat.le_of_succ_le_succ hleft)).2 ⟨hmore, Nat.le_of_succ_le_succ hlength, hall⟩,
              rfl⟩

theorem joins_of_too_many (hroom : room ≤ room') {left left' : Nat} {start : Nat}
    {items : List Item} {js : List Join} (h : joins after room' limit' left' start items = .ok js)
    (hnests : ∀ j ∈ js, Join.Clause.NestsWithin room j.clause) (hlength : left < js.length) :
    joins after room limit left start items = .error (.tooManyJoins limit) := by
  induction js generalizing left left' start items with
  | nil => cases hlength
  | cons j js ih =>
      cases items with
      | nil =>
          simp only [joins] at h
          cases h
      | cons i rest =>
          cases left with
          | zero => rfl
          | succ left =>
              obtain ⟨l', first, n, more, rfl, hfirst, hmore, hjs⟩ := joins_eq_ok.1 h
              obtain ⟨rfl, rfl⟩ := List.cons.inj hjs
              obtain ⟨hj, hall⟩ := List.forall_mem_cons.1 hnests
              have hread := (join_cutTo hroom start _ j n).2 ⟨hfirst, hj⟩
              have hlater := ih hmore hall (Nat.lt_of_succ_lt_succ hlength)
              simp only [joins, hread, bind, Except.bind, hlater]

end Joins

end Reading

namespace References

def parseFreely (start : Nat) (items : List Item) (after : Option Item) :
    Except Failure References :=
  parse items.length items.length start items after

def NestsWithin (room : Nat) (r : References) : Prop :=
  ∀ j ∈ r.joins, Join.Clause.NestsWithin room j.clause

instance (room : Nat) (r : References) : Decidable (r.NestsWithin room) :=
  inferInstanceAs (Decidable (∀ j ∈ r.joins, Join.Clause.NestsWithin room j.clause))

variable {room maxJoins start : Nat} {items : List Item} {after : Option Item} {r : References}

theorem parse_of_enough (hroom : items.length ≤ room) (hjoins : items.length ≤ maxJoins) :
    parse room maxJoins start items after = parseFreely start items after := by
  rw [parseFreely, parse, parse]
  refine bind_congr ?_
  rintro ⟨first, n⟩
  have hlater : (items.drop n).length ≤ items.length := by simp
  have hread : Reading.joins after room maxJoins maxJoins (start + n) (items.drop n) =
      Reading.joins after items.length items.length items.length (start + n) (items.drop n) :=
    joins_of_enough (Nat.le_trans hlater hroom) hlater (Nat.le_trans hlater hjoins) hlater
  simp only [hread]

theorem parse_cutTo {room' maxJoins' : Nat} (hroom : room ≤ room') (hjoins : maxJoins ≤ maxJoins') :
    parse room maxJoins start items after = .ok r ↔
      parse room' maxJoins' start items after = .ok r ∧ r.joins.length ≤ maxJoins ∧
        r.NestsWithin room := by
  simp only [parse_eq_ok]
  constructor
  · rintro ⟨n, hfirst, h⟩
    obtain ⟨hread, hcut⟩ := (joins_cutTo hroom hjoins).1 h
    exact ⟨⟨n, hfirst, hread⟩, hcut⟩
  · rintro ⟨⟨n, hfirst, h⟩, hcut⟩
    exact ⟨n, hfirst, (joins_cutTo hroom hjoins).2 ⟨h, hcut⟩⟩

theorem parse_of_too_many {room' maxJoins' : Nat} (hroom : room ≤ room')
    (h : parse room' maxJoins' start items after = .ok r) (hnests : r.NestsWithin room)
    (hlength : maxJoins < r.joins.length) :
    parse room maxJoins start items after = .error (.tooManyJoins maxJoins) := by
  obtain ⟨n, hfirst, h⟩ := parse_eq_ok.1 h
  have hmany : Reading.joins after room maxJoins maxJoins (start + n) (items.drop n) =
      .error (.tooManyJoins maxJoins) := joins_of_too_many hroom h hnests hlength
  simp only [parse, hfirst, mapError_ok, bind, Except.bind, hmany]

theorem parse_exactly_within_limits (maxJoins start : Nat) (items : List Item)
    (after : Option Item) :
    (∀ room limit, items.length ≤ room → items.length ≤ limit →
        parse room limit start items after = parseFreely start items after) ∧
      (∀ r, parse maxNesting maxJoins start items after = .ok r ↔
        parseFreely start items after = .ok r ∧ r.joins.length ≤ maxJoins ∧
          r.NestsWithin maxNesting) ∧
      ∀ r, parseFreely start items after = .ok r → r.NestsWithin maxNesting →
        maxJoins < r.joins.length →
          parse maxNesting maxJoins start items after = .error (.tooManyJoins maxJoins) := by
  have hfree := @parse_of_enough (maxNesting + items.length) (maxJoins + items.length) start items
    after (Nat.le_add_left ..) (Nat.le_add_left ..)
  refine ⟨fun _ _ => parse_of_enough, fun r => ?_, fun r h hnests hlength => ?_⟩
  · rw [← hfree]
    exact parse_cutTo (Nat.le_add_right ..) (Nat.le_add_right ..)
  · rw [← hfree] at h
    exact parse_of_too_many (Nat.le_add_right ..) h hnests hlength

theorem parse_exactly_within_limits_exceeded :
    let read (sql : String) : List Item :=
      ((lex sql.toList).toOption.map fun l => l.tokens.map Item.token).getD []
    let chain := read "a JOIN b ON a.x = b.x JOIN c"
    let nested (levels : Nat) := read "a JOIN b ON" ++
      ((List.replicate levels (read " NOT")).flatten ++ read " a.x IN (1, f((2)))")
    (∃ r, parseFreely 0 chain none = .ok r ∧ r.joins.length = 2 ∧
        parse maxNesting 2 0 chain none = .ok r) ∧
      parse maxNesting 1 0 chain none = .error (.tooManyJoins 1) ∧
      (∃ r, parseFreely 0 (nested 127) none = .ok r ∧ ¬ r.NestsWithin 127 ∧
        parse maxNesting 1 0 (nested 127) none = .ok r) ∧
      (∃ r, parseFreely 0 (nested 128) none = .ok r ∧ r.joins.length = 1) ∧
      ∀ r, parse maxNesting 1 0 (nested 128) none ≠ .ok r := by
  intro read chain nested
  obtain ⟨r, hchain, hr⟩ : ∃ r, parseFreely 0 chain none = .ok r ∧
      (r.joins.length = 2 ∧ r.NestsWithin maxNesting) :=
    exists_ok_of_any (by decide +kernel)
  obtain ⟨s, hinside, hs⟩ : ∃ s, parseFreely 0 (nested 127) none = .ok s ∧
      (s.joins.length = 1 ∧ ¬ s.NestsWithin 127 ∧ s.NestsWithin maxNesting) :=
    exists_ok_of_any (by decide +kernel)
  obtain ⟨t, houtside, ht⟩ : ∃ t, parseFreely 0 (nested 128) none = .ok t ∧
      (t.joins.length = 1 ∧ ¬ t.NestsWithin maxNesting) :=
    exists_ok_of_any (by decide +kernel)
  have hlimits := parse_exactly_within_limits
  refine ⟨⟨r, hchain, hr.1, ?_⟩, ?_, ⟨s, hinside, hs.2.1, ?_⟩, ⟨t, houtside, ht.1⟩, ?_⟩
  · exact ((hlimits 2 0 chain none).2.1 r).2 ⟨hchain, Nat.le_of_eq hr.1, hr.2⟩
  · exact (hlimits 1 0 chain none).2.2 r hchain hr.2 (by omega)
  · exact ((hlimits 1 0 (nested 127) none).2.1 s).2 ⟨hinside, Nat.le_of_eq hs.1, hs.2.2⟩
  · intro u hu
    -- The reader without limits gives one value only, and that nests too deep.
    obtain ⟨hread, -, hnests⟩ := ((hlimits 1 0 (nested 128) none).2.1 u).1 hu
    obtain rfl := Except.ok.inj (houtside.symm.trans hread)
    exact ht.2 hnests

end References

end SoftDelete
