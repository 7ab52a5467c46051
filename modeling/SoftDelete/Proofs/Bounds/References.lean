import SoftDelete.Join.Reading.References
import SoftDelete.Proofs.Bounds.Reading

namespace SoftDelete

namespace Cursor

open Run Reading

section Definitions

variable (c : Cursor)

def tableOrSubselect (n : Nat) : Run (Option Text × Nat) := do
  match ← reach (c.peek n) with
  | some (.subselect ..) => pure (none, 1)
  | _ => do
      let (parts, k) ← c.dotted "expected a table name" "expected a name after `.`" n
      pure (some (Text.joined "." parts), k)

def aliasName (n : Nat) : Run (Option Text × Nat) := do
  match ← reach (c.peek n) with
  | none => pure (none, 0)
  | some i =>
      if i.spells "AS" then do
        let (text, k) ← c.single (name "expected an alias after AS") (n + 1)
        pure (some text, k + 1)
      else match i.freeName? with
        | some text => pure (some text, 1)
        | none => pure (none, 0)

def reference (n : Nat) : Run (Reference × Nat) := do
  let (name, k) ← c.tableOrSubselect n
  let (aliasName, m) ← c.aliasName (n + k)
  pure (⟨name, aliasName, n, n + (k + m)⟩, k + m)

def joinKeywords (n : Nat) : Option (Option (Join.Kind × Nat)) := do
  match ← c.peek n with
  | none => some none
  | some i =>
      if i.hasKind .comma then some (some (.comma, 1))
      else do
        let form ← Join.Kind.forms.findM? fun form => c.startsWith form.2 n
        some (form.map fun form => (form.1, form.2.length))

def clause (room n : Nat) : Run (Option Join.Clause × Nat) := do
  match ← reach (c.peek n) with
  | none => pure (none, 0)
  | some i =>
      if i.spells "ON" then do
        let (tree, k) ← c.connected (c.term room) (n + 1)
        pure (some (.on tree ⟨n + 1, n + (1 + k)⟩), 1 + k)
      else if i.spells "USING" then do
        let (_, k) ← c.single (expect .lparen "expected `(` after USING") (n + 1)
        let (columns, m) ← c.separated (c.single (name "expected a column in USING")) .comma
          (n + 1 + k)
        let (_, p) ← c.single (expect .rparen "expected `)` closing USING") (n + 1 + (k + m))
        pure (some (.using columns), 1 + (k + m + p))
      else pure (none, 0)

def join (room n : Nat) : Run (Join × Nat) := do
  match ← reach (c.joinKeywords n) with
  | none => do
      let i ← reach (c.peek n)
      throw (misfit "expected a join" i.toList)
  | some (kind, k) => do
      let (table, m) ← c.reference (n + k)
      let (own, p) ← c.clause room (n + (k + m))
      let taken := k + m + p
      pure (⟨kind, table, own, ⟨n, n + k⟩, ⟨n, n + taken⟩⟩, taken)

def joins (room limit left n : Nat) : Run (List Join) := do
  match ← reach (c.peek n) with
  | none => pure []
  | some _ =>
      match left with
      | 0 => throw (.tooManyJoins limit)
      | left + 1 => do
          let (first, k) ← c.join room n
          let more ← joins room limit left (n + k)
          pure (first :: more)

def parse (maxJoins n : Nat) : Run References := do
  let (first, k) ← ExceptT.adapt Failure.inLeftmost (c.reference n)
  let joins ← c.joins maxNesting maxJoins maxJoins (n + k)
  pure ⟨first, joins⟩

end Definitions

section Readers

variable {c : Cursor} (hc : c.Within) (hsolid : ∀ i ∈ c.level.items, i.text ≠ []) {d room : Nat}

include hc

theorem tableOrSubselect_follows : c.Follows d c.tableOrSubselect Reading.tableOrSubselect := by
  intro n
  have hdotted : ComesTo d
      (c.dotted "expected a table name" "expected a name after `.`" n >>= fun parts =>
        pure (some (Text.joined "." parts.1), parts.2))
      (Reading.dotted "expected a table name" "expected a name after `.`"
        (c.level.itemsIn n c.stop) >>= fun parts =>
          .ok (some (Text.joined "." parts.1), parts.2)) := by
    refine (dotted_follows hc _ _ n).bind ?_
    rintro ⟨parts, k⟩ -
    exact .pure d _
  obtain ⟨-, hitems, hpeek⟩ | ⟨i, -, -, hitems, hpeek⟩ := peek_cases hc n
  · rw [hitems] at hdotted
    rw [tableOrSubselect, hpeek, hitems]
    exact hdotted
  · rw [hitems] at hdotted
    rw [tableOrSubselect, hpeek, hitems]
    cases i with
    | token t => exact hdotted
    | subselect gap text body => exact .pure d _

theorem aliasName_follows : c.Follows d c.aliasName Reading.aliasName? := by
  intro n
  obtain ⟨-, hitems, hpeek⟩ | ⟨i, -, -, hitems, hpeek⟩ := peek_cases hc n
  · rw [aliasName, hpeek, hitems]
    exact .pure d _
  · rw [aliasName, hpeek, hitems, Reading.aliasName?]
    dsimp only [reach_some_bind]
    split
    · refine (name_follows hc _ (n + 1)).bind ?_
      rintro ⟨text, k⟩ -
      exact .pure d _
    · cases i.freeName? with
      | some text => exact .pure d _
      | none => exact .pure d _

theorem reference_comes (n : Nat) :
    ComesTo d (c.reference n) (Reading.reference n (c.level.itemsIn n c.stop)) := by
  refine (tableOrSubselect_follows hc n).bind ?_
  rintro ⟨name, k⟩ -
  dsimp only
  rw [Level.itemsIn_drop]
  refine (aliasName_follows hc (n + k)).bind ?_
  rintro ⟨given, m⟩ -
  exact .pure d _

theorem joinKeywords_eq (n : Nat) :
    c.joinKeywords n = some (Reading.joinKeywords? (c.level.itemsIn n c.stop)) := by
  obtain ⟨-, hitems, hpeek⟩ | ⟨i, -, -, hitems, hpeek⟩ := peek_cases hc n
  · rw [joinKeywords, hpeek, hitems]
    rfl
  · rw [joinKeywords, hpeek, findM?_startsWith hc, hitems, Reading.joinKeywords?]
    dsimp only [Option.bind_eq_bind, Option.bind_some]
    split <;> rfl

include hsolid

theorem clause_comes (hroom : d + room = maxNesting) (n : Nat) :
    ComesTo d (c.clause room n)
      (Reading.clause c.level.items[c.stop]? room n (c.level.itemsIn n c.stop)) := by
  obtain ⟨-, hitems, hpeek⟩ | ⟨i, -, -, hitems, hpeek⟩ := peek_cases hc n
  · rw [clause, hpeek, hitems]
    exact .pure d _
  · rw [clause, hpeek, hitems, Reading.clause]
    dsimp only [reach_some_bind]
    split
    · refine (connected_follows hc (term_follows hc hsolid hroom) (n + 1)).bind ?_
      rintro ⟨tree, k⟩ -
      exact .pure d _
    · split
      · refine (expect_follows hc _ _ (n + 1)).bind ?_
        rintro ⟨u, k⟩ -
        dsimp only
        rw [Level.itemsIn_drop]
        refine (separated_follows hc (name_follows hc _) (n + 1 + k)).bind ?_
        rintro ⟨columns, m⟩ -
        dsimp only
        rw [Level.itemsIn_drop]
        refine (expect_follows hc _ _ (n + 1 + (k + m))).bind ?_
        rintro ⟨u, p⟩ -
        exact .pure d _
      · exact .pure d _

theorem join_comes (hroom : d + room = maxNesting) (n : Nat) :
    ComesTo d (c.join room n)
      (Reading.join c.level.items[c.stop]? room n (c.level.itemsIn n c.stop)) := by
  rw [join, Reading.join, joinKeywords_eq hc]
  dsimp only [reach_some_bind]
  cases Reading.joinKeywords? (c.level.itemsIn n c.stop) with
  | none =>
      obtain ⟨-, hitems, hpeek⟩ | ⟨i, -, -, hitems, hpeek⟩ := peek_cases hc n
      · rw [hpeek, hitems]
        exact .throw d _
      · rw [hpeek, hitems]
        exact .throw d _
  | some keyword =>
      obtain ⟨kind, k⟩ := keyword
      dsimp only
      rw [Level.itemsIn_drop]
      refine (reference_comes hc (n + k)).bind ?_
      rintro ⟨table, m⟩ -
      dsimp only
      rw [Level.itemsIn_drop]
      refine (clause_comes hc hsolid hroom (n + (k + m))).bind ?_
      rintro ⟨own, p⟩ -
      exact .pure d _

theorem joins_comes (hroom : d + room = maxNesting) (limit left n : Nat) :
    ComesTo d (c.joins room limit left n)
      (Reading.joins c.level.items[c.stop]? room limit left n (c.level.itemsIn n c.stop)) := by
  induction left generalizing n with
  | zero =>
      obtain ⟨-, hitems, hpeek⟩ | ⟨i, -, -, hitems, hpeek⟩ := peek_cases hc n
      · rw [joins, hpeek, hitems]
        exact .pure d _
      · rw [joins, hpeek, hitems]
        exact .throw d _
  | succ left ih =>
      obtain ⟨-, hitems, hpeek⟩ | ⟨i, -, -, hitems, hpeek⟩ := peek_cases hc n
      · rw [joins, hpeek, hitems]
        exact .pure d _
      · rw [joins, hpeek, hitems, Reading.joins]
        dsimp only [reach_some_bind]
        rw [← hitems]
        refine (join_comes hc hsolid hroom n).bind ?_
        rintro ⟨first, k⟩ -
        dsimp only
        rw [Level.itemsIn_drop]
        refine (ih (n + k)).bind fun more _ => ?_
        exact .pure d _

theorem parse_comes (maxJoins n : Nat) :
    ComesTo 0 (c.parse maxJoins n)
      (References.parse maxNesting maxJoins n (c.level.itemsIn n c.stop)
        c.level.items[c.stop]?) := by
  refine ((reference_comes hc n).adapt Failure.inLeftmost).bind ?_
  rintro ⟨first, k⟩ -
  dsimp only
  rw [Level.itemsIn_drop]
  refine (joins_comes hc hsolid (Nat.zero_add _) maxJoins maxJoins (n + k)).bind fun joins _ => ?_
  exact .pure 0 _

end Readers

end Cursor

end SoftDelete
