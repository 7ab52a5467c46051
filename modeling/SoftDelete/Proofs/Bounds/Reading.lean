import SoftDelete.Join.Reading.Condition
import SoftDelete.Proofs.Bounds.Cursor
import SoftDelete.Proofs.Join.Grammar

namespace SoftDelete

namespace Cursor

open Run Reading

section Definitions

variable (c : Cursor)

def comparator (n : Nat) : Run (Comparator × Nat) := do
  match ← reach (c.peek n) with
  | none => throw (misfit "expected a comparison operator" [])
  | some i =>
      match if i.hasKind .operator then Comparator.ofOperator? i.text else none with
      | some op => pure (op, 1)
      | none =>
          match ← reach (Comparator.forms.findM? fun form => c.startsWith form.1 n) with
          | some form => pure (form.2, form.1.length)
          | none => throw (misfit "expected a comparison operator" [i])

def closing (depth n : Nat) : Option (Option Nat) :=
  if n < c.stop then do
    match ← c.peek n with
    | none => some none
    | some i =>
        match i.kind? with
        | some .lparen => (closing (depth + 1) (n + 1)).map (·.map (· + 1))
        | some .rparen => do
            let depth ← minus? depth 1
            if depth = 0 then some (some 0) else (closing depth (n + 1)).map (·.map (· + 1))
        | _ => (closing depth (n + 1)).map (·.map (· + 1))
  else some none
termination_by c.stop - n

def namedOperand (n : Nat) : Run (Operand × Nat) := do
  let (first, k) ← c.single (name "expected an operand") n
  match ← reach (c.peek (n + k)) with
  | none => pure (.column [first], k)
  | some i =>
      if i.hasKind .lparen then
        match ← reach (c.closing 0 (n + k)) with
        | none => throw (misfit "expected `)` closing function call" [])
        | some m => do
            let args ← reach (if 1 < m then c.level.render? (n + k + 1) (n + k + m) else some [])
            pure (.call first args, k + (m + 1))
      else do
        let (parts, m) ← c.linked (c.single (name "expected a column name after `.`")) (mark? .dot)
          (n + k)
        pure (.column (first :: parts.map Prod.snd), k + m)

def signs : List Text :=
  [['-'], ['+']]

def operand (room n : Nat) : Run (Operand × Nat) := do
  let inner := match room with
    | 0 => fun _ => reach none
    | room + 1 => operand room
  match ← reach (c.peek n) with
  | none => throw (misfit "expected an operand" [])
  | some i =>
      match i.kind? with
      | none => pure (.subselect, 1)
      | some .number => pure (.literal i.text, 1)
      | some .param => pure (.param, 1)
      | some .operator =>
          if i.text ∈ signs then
            match ← reach (c.peek (n + 1)) with
            | some j =>
                if j.hasKind .number then pure (.literal (i.text ++ j.text), 2)
                else throw (misfit "expected an operand" [i])
            | none => throw (misfit "expected an operand" [i])
          else throw (misfit "expected an operand" [i])
      | some .lparen => do
          let (values, k) ← c.separated (fun m => nested maxNesting nestedTooDeep (inner m)) .comma
            (n + 1)
          let (_, m) ← c.single (expect .rparen "expected `)` closing value list") (n + 1 + k)
          pure (.list values, 1 + k + m)
      | some .word =>
          if constantWords.any (Text.sameWord i.text) then
            pure (.literal (i.text.map Char.toUpper), 1)
          else c.namedOperand n
      | some (.quoted .backtick) => c.namedOperand n
      | some (.quoted _) =>
          if (c.level.items[n + 1]?).any (Item.hasKind · .dot) then c.namedOperand n
          else pure (.literal i.text, 1)
      | _ => throw (misfit "expected an operand" [i])

def comparison (room n : Nat) : Run (Condition × Nat) := do
  let (lhs, k) ← c.operand room n
  let (op, m) ← c.comparator (n + k)
  let (rhs, p) ← c.operand room (n + (k + m))
  pure (.compare lhs op rhs, k + m + p)

def connected (term : Nat → Run (Condition × Nat)) (n : Nat) : Run (Condition × Nat) := do
  let (first, k) ← term n
  let (more, m) ← c.linked term Connective.ofItem? (n + k)
  pure (more.foldl (fun lhs step => step.1.join lhs step.2) first, k + m)

def term (room n : Nat) : Run (Condition × Nat) := do
  let inner := match room with
    | 0 => fun _ => reach none
    | room + 1 => term room
  match ← reach (c.peek n) with
  | none => c.comparison room n
  | some i =>
      if i.spells "NOT" then do
        let (body, k) ← nested maxNesting nestedTooDeep (inner (n + 1))
        pure (.not body, 1 + k)
      else if i.hasKind .lparen then do
        let (body, k) ← nested maxNesting nestedTooDeep (c.connected inner (n + 1))
        let (_, m) ← c.single (expect .rparen "expected `)` in join condition") (n + 1 + k)
        pure (.group body, 1 + k + m)
      else c.comparison room n

end Definitions

section Readers

variable {c : Cursor} (hc : c.Within) {d : Nat}

include hc

theorem comparator_follows : c.Follows d c.comparator Reading.comparator := by
  intro n
  obtain ⟨-, hitems, hpeek⟩ | ⟨i, -, -, hitems, hpeek⟩ := peek_cases hc n
  · rw [comparator, hpeek, hitems]
    exact .throw d _
  · rw [comparator, hpeek, findM?_startsWith hc, hitems, Reading.comparator]
    dsimp only [reach_some_bind]
    cases if i.hasKind .operator then Comparator.ofOperator? i.text else none with
    | some op => exact .pure d _
    | none =>
        cases Comparator.forms.find? fun form =>
            startsWithWords form.1 (i :: c.level.itemsIn (n + 1) c.stop) with
        | some form => exact .pure d _
        | none => exact .throw d _

theorem closing_eq (depth n : Nat) :
    c.closing (depth + 1) n =
      some ((enclosed? Item.kind? depth (c.level.itemsIn n c.stop)).map fun parts =>
        parts.1.length) := by
  induction hleft : c.stop - n using Nat.strongRecOn generalizing depth n with
  | ind left ih =>
      obtain ⟨-, hitems, hpeek⟩ | ⟨i, hn, -, hitems, hpeek⟩ := peek_cases hc n
      · rw [closing, hpeek, hitems]
        split <;> rfl
      · have hlater : ∀ depth, (c.closing (depth + 1) (n + 1)).map (·.map (· + 1)) =
            some (((enclosed? Item.kind? depth (c.level.itemsIn (n + 1) c.stop)).map
              fun parts => (i :: parts.1, parts.2)).map fun parts => parts.1.length) := by
          intro depth
          rw [ih (c.stop - (n + 1)) (by omega) depth (n + 1) rfl, Option.map_map]
          simp [Function.comp_def]
        rw [closing, if_pos hn, hpeek, hitems]
        unfold enclosed?
        dsimp only [Option.bind_eq_bind, Option.bind_some]
        cases hkind : i.kind? with
        | none => exact hlater depth
        | some kind =>
            cases kind with
            | lparen => exact hlater (depth + 1)
            | rparen =>
                cases depth with
                | zero => rfl
                | succ depth => exact hlater depth
            | _ => exact hlater depth

theorem closing_call {n : Nat} {i : Item} (hn : n < c.stop) (hi : c.level.items[n]? = some i)
    (hkind : i.hasKind .lparen = true) :
    c.closing 0 n = some ((enclosed? Item.kind? 0 (c.level.itemsIn (n + 1) c.stop)).map fun parts =>
      parts.1.length + 1) := by
  rw [closing, if_pos hn, peek_of_getElem? hn hi]
  dsimp only [Option.bind_eq_bind, Option.bind_some]
  rw [Item.kind?_of_hasKind hkind]
  dsimp only
  rw [closing_eq hc 0 (n + 1), Option.map_some, Option.map_map]
  rfl

variable (hsolid : ∀ i ∈ c.level.items, i.text ≠ [])

include hsolid

theorem render_args {n : Nat} {args rest : List Item} {close : Item}
    (h : enclosed? Item.kind? 0 (c.level.itemsIn (n + 1) c.stop) = some (args, close, rest)) :
    (if 1 < args.length + 1 then c.level.render? (n + 1) (n + (args.length + 1)) else some []) =
      some (outputOf args) := by
  have hsplit := append_of_enclosed? h
  have hlen : n + 1 + args.length < c.stop := by
    have hlen := congrArg List.length hsplit
    simp only [Level.itemsIn, List.length_take, List.length_append, List.length_cons] at hlen
    omega
  split
  · have hin := Level.itemsIn_take (l := c.level) (n := n + 1) (Nat.le_of_lt hlen)
    rw [hsplit, Nat.add_sub_cancel_left, List.take_left] at hin
    have hstop : n + 1 + args.length ≤ c.level.items.length := Nat.le_trans (Nat.le_of_lt hlen) hc
    rw [← Nat.add_assoc, Nat.add_right_comm, Level.render?_eq hsolid (by omega) hstop, ← hin]
  · obtain rfl : args = [] := List.eq_nil_of_length_eq_zero (by omega)
    rfl

theorem namedOperand_follows : c.Follows d c.namedOperand Reading.namedOperand := by
  intro n
  refine (name_follows hc _ n).bind ?_
  rintro ⟨first, k⟩ -
  dsimp only
  rw [Level.itemsIn_drop]
  obtain ⟨-, hitems, hpeek⟩ | ⟨i, hn, hi, hitems, hpeek⟩ := peek_cases hc (n + k)
  · rw [hpeek, hitems]
    exact .pure d _
  · rw [hpeek, hitems]
    dsimp only [reach_some_bind]
    by_cases hkind : i.hasKind .lparen = true
    · rw [if_pos hkind, if_pos hkind, closing_call hc hn hi hkind]
      cases hclosed : enclosed? Item.kind? 0 (c.level.itemsIn (n + k + 1) c.stop) with
      | none => exact .throw d _
      | some parts =>
          obtain ⟨args, close, rest⟩ := parts
          dsimp only [Option.map_some, reach_some_bind]
          rw [render_args hc hsolid hclosed]
          exact .pure d _
    · rw [if_neg hkind, if_neg hkind, ← hitems]
      refine (linked_follows hc (name_follows hc _) (n + k)).bind ?_
      rintro ⟨parts, m⟩ -
      exact .pure d _

omit hsolid in
theorem head_or_after {n : Nat} (hn : n < c.stop) :
    ((c.level.itemsIn (n + 1) c.stop).head? <|> c.level.items[c.stop]?) = c.level.items[n + 1]? := by
  obtain ⟨hle, hitems, -⟩ | ⟨i, -, hi, hitems, -⟩ := peek_cases hc (n + 1)
  · rw [hitems, show c.stop = n + 1 by omega]
    rfl
  · rw [hitems, hi]
    rfl

omit hc hsolid in
theorem nested_follows {α : Type} {room : Nat} (hroom : d + room = maxNesting)
    {x : Nat → Nat → Run α} {read : Nat → List Item → Except Failure α}
    (h : ∀ r, room = r + 1 → c.Follows (d + 1) (x r) (read r)) :
    c.Follows d
      (fun n => nested maxNesting nestedTooDeep
        ((match room with
          | 0 => fun _ => reach none
          | room + 1 => x room) n))
      (match room with
        | 0 => fun _ => .error nestedTooDeep
        | room + 1 => read room) := by
  intro n
  cases room with
  | zero =>
      obtain rfl : d = maxNesting := hroom
      exact .nested_full ..
  | succ room => exact .nested (by omega) _ (h room rfl n)

theorem operand_follows_step {room : Nat} (hroom : d + room = maxNesting)
    (hinner : ∀ r, room = r + 1 →
      c.Follows (d + 1) (c.operand r) (Reading.operand c.level.items[c.stop]? r)) :
    c.Follows d (c.operand room) (Reading.operand c.level.items[c.stop]? room) := by
  intro n
  obtain ⟨-, hitems, hpeek⟩ | ⟨i, hn, -, hitems, hpeek⟩ := peek_cases hc n
  · rw [operand.eq_def, hpeek, hitems, Reading.operand.eq_def]
    exact .throw d _
  · rw [operand.eq_def, hpeek, hitems, Reading.operand.eq_def]
    dsimp only [reach_some_bind]
    have hnamed : ComesTo d (c.namedOperand n)
        (Reading.namedOperand (i :: c.level.itemsIn (n + 1) c.stop)) :=
      hitems ▸ namedOperand_follows hc hsolid n
    cases hkind : i.kind? with
    | none => exact .pure d _
    | some kind =>
        cases kind with
        | word =>
            dsimp only
            split
            · exact .pure d _
            · exact hnamed
        | quoted q =>
            rw [head_or_after hc hn]
            cases q with
            | backtick => exact hnamed
            | _ =>
                dsimp only
                split
                · exact hnamed
                · exact .pure d _
        | number => exact .pure d _
        | operator =>
            dsimp only
            by_cases hsign : i.text ∈ signs
            · have htext : i.text = ['-'] ∨ i.text = ['+'] := by simpa [signs] using hsign
              rw [if_pos hsign]
              obtain ⟨-, hitems, hpeek⟩ | ⟨j, -, -, hitems, hpeek⟩ := peek_cases hc (n + 1)
              · rw [hpeek, hitems]
                rcases htext with htext | htext <;> rw [htext] <;> exact .throw d _
              · have hnumber : ComesTo d
                    (if j.hasKind .number then pure (Operand.literal (i.text ++ j.text), 2)
                      else throw (misfit "expected an operand" [i]))
                    (if j.hasKind .number then .ok (Operand.literal (i.text ++ j.text), 2)
                      else .error (misfit "expected an operand" [i])) := by
                  split
                  · exact .pure d _
                  · exact .throw d _
                rw [hpeek, hitems]
                rcases htext with htext | htext <;> rw [htext] at hnumber ⊢ <;> exact hnumber
            · rw [if_neg hsign]
              split
              · rename_i htext _
                simp [htext, signs] at hsign
              · rename_i htext _
                simp [htext, signs] at hsign
              · exact .throw d _
        | lparen =>
            have hvalue := nested_follows hroom hinner
            cases room with
            | zero =>
                refine ComesTo.bind (g := fun _ => .error nestedTooDeep)
                  (separated_follows hc hvalue (n + 1)) nofun
            | succ room =>
                refine (separated_follows hc hvalue (n + 1)).bind ?_
                rintro ⟨values, k⟩ -
                dsimp only
                rw [Level.itemsIn_drop]
                refine (expect_follows hc _ _ (n + 1 + k)).bind ?_
                rintro ⟨u, m⟩ -
                exact .pure d _
        | param => exact .pure d _
        | _ => exact .throw d _

theorem operand_follows {room : Nat} (hroom : d + room = maxNesting) :
    c.Follows d (c.operand room) (Reading.operand c.level.items[c.stop]? room) := by
  induction room generalizing d with
  | zero => exact operand_follows_step hc hsolid hroom nofun
  | succ room ih =>
      refine operand_follows_step hc hsolid hroom fun r hr => ?_
      cases hr
      exact ih (by omega)

theorem comparison_follows {room : Nat} (hroom : d + room = maxNesting) :
    c.Follows d (c.comparison room) (Reading.comparison c.level.items[c.stop]? room) := by
  intro n
  refine (operand_follows hc hsolid hroom n).bind ?_
  rintro ⟨lhs, k⟩ -
  dsimp only
  rw [Level.itemsIn_drop]
  refine (comparator_follows hc (n + k)).bind ?_
  rintro ⟨op, m⟩ -
  dsimp only
  rw [Level.itemsIn_drop]
  refine (operand_follows hc hsolid hroom (n + (k + m))).bind ?_
  rintro ⟨rhs, p⟩ -
  exact .pure d _

omit hsolid in
theorem connected_follows {term : Nat → Run (Condition × Nat)}
    {read : List Item → Except Failure (Condition × Nat)} (h : c.Follows d term read) :
    c.Follows d (c.connected term) (Reading.connected read) := by
  intro n
  refine (h n).bind ?_
  rintro ⟨first, k⟩ -
  dsimp only
  rw [Level.itemsIn_drop]
  refine (linked_follows hc h (n + k)).bind ?_
  rintro ⟨more, m⟩ -
  exact .pure d _

theorem term_follows_step {room : Nat} (hroom : d + room = maxNesting)
    (hinner : ∀ r, room = r + 1 →
      c.Follows (d + 1) (c.term r) (Reading.term c.level.items[c.stop]? r)) :
    c.Follows d (c.term room) (Reading.term c.level.items[c.stop]? room) := by
  intro n
  have hcompare := comparison_follows hc hsolid hroom n
  obtain ⟨-, hitems, hpeek⟩ | ⟨i, -, -, hitems, hpeek⟩ := peek_cases hc n
  · rw [hitems] at hcompare
    rw [term.eq_def, hpeek, hitems, Reading.term.eq_def]
    exact hcompare
  · rw [hitems] at hcompare
    rw [term.eq_def, hpeek, hitems, Reading.term.eq_def]
    dsimp only [reach_some_bind]
    split
    · have hbody := nested_follows hroom hinner (n + 1)
      cases room with
      | zero => exact hbody.bind (g := fun _ => .error nestedTooDeep) nofun
      | succ room =>
          refine hbody.bind ?_
          rintro ⟨body, k⟩ -
          exact .pure d _
    · split
      · have hbody := nested_follows hroom (x := fun r => c.connected (c.term r))
          fun r hr => connected_follows hc (hinner r hr)
        cases room with
        | zero =>
            exact (hbody (n + 1)).bind (g := fun _ => .error nestedTooDeep) nofun
        | succ room =>
            refine (hbody (n + 1)).bind ?_
            rintro ⟨body, k⟩ -
            dsimp only
            rw [Level.itemsIn_drop]
            refine (expect_follows hc _ _ (n + 1 + k)).bind ?_
            rintro ⟨u, m⟩ -
            exact .pure d _
      · exact hcompare

theorem term_follows {room : Nat} (hroom : d + room = maxNesting) :
    c.Follows d (c.term room) (Reading.term c.level.items[c.stop]? room) := by
  induction room generalizing d with
  | zero => exact term_follows_step hc hsolid hroom nofun
  | succ room ih =>
      refine term_follows_step hc hsolid hroom fun r hr => ?_
      cases hr
      exact ih (by omega)

end Readers

end Cursor

end SoftDelete
