import SoftDelete.Proofs.Join.Layout
import SoftDelete.Proofs.Sql.Readable
import SoftDelete.Select.Nesting

namespace SoftDelete

theorem Attempt.exists_of_bind {α β : Type} {x : Attempt α} {f : α → Attempt β} {b : β}
    (h : (x >>= f).result = .ok b) :
    ∃ a, x.result = .ok a ∧ (f a).result = .ok b ∧ (x >>= f).notes = x.notes ++ (f a).notes := by
  cases hx : x.result with
  | error e =>
      rw [bind_of_error hx] at h
      cases h
  | ok a =>
      rw [bind_of_ok hx] at h ⊢
      exact ⟨a, rfl, h, rfl⟩

instance : LawfulMonad Attempt :=
  LawfulMonad.mk' Attempt
    (fun ⟨result, notes⟩ => by
      change Attempt.bind _ _ = _
      cases result <;> simp [Attempt.bind, Attempt.done])
    (fun a f => by
      change Attempt.bind _ _ = _
      simp [Attempt.bind])
    (fun ⟨result, notes⟩ f g => by
      change Attempt.bind (Attempt.bind _ _) _ = Attempt.bind _ fun a => Attempt.bind _ _
      cases result with
      | error e => rfl
      | ok a => cases h : (f a).result <;> simp [Attempt.bind, h, Notes.append_assoc])

def Segment.Enclosed : Segment → Prop
  | .token _ => True
  | .subselect opening _ closing => opening.kind = .lparen ∧ closing.kind = .rparen

theorem segments_enclosed (ts : List Token) : ∀ s ∈ (segments ts).1, s.Enclosed := by
  fun_induction segments ts with
  | case1 => simp
  | case2 => simp
  | case3 t ts hopens inner closing rest h later unclosed hs ih =>
      rw [hs] at ih
      have hopening : t.kind = .lparen := by
        simpa using (Bool.and_eq_true_iff.1 hopens).1
      have hclosing : closing.kind = .rparen := by simpa using kind_of_enclosed? h
      simpa [Segment.Enclosed, hopening, hclosing] using ih
  | case4 t ts _ later unclosed hs ih =>
      rw [hs] at ih
      simpa [Segment.Enclosed] using ih

section Items

variable {nested : Nat → Text → Attempt Text} {offset : Nat} {segs : List Segment}
  {items : List Item}

theorem itemsOf_token {t : Token}
    (h : (itemsOf nested offset (.token t :: segs)).result = .ok items) :
    ∃ later, (itemsOf nested (offset + Text.byteSize t.source) segs).result = .ok later ∧
      items = .token t :: later ∧
      (itemsOf nested offset (.token t :: segs)).notes =
        (itemsOf nested (offset + Text.byteSize t.source) segs).notes := by
  rw [itemsOf] at h ⊢
  obtain ⟨later, hlater, h, hnotes⟩ := Attempt.exists_of_bind h
  cases h
  exact ⟨later, hlater, rfl, by simpa using hnotes⟩

theorem itemsOf_subselect {opening closing : Token} {inner : List Token}
    (h : (itemsOf nested offset (.subselect opening inner closing :: segs)).result = .ok items) :
    ∃ start stop body later,
      (nested start (sourceOf inner ++ closing.gap)).result = .ok body ∧
      (itemsOf nested stop segs).result = .ok later ∧
      items = .subselect opening.gap (opening.text ++ (sourceOf inner ++ closing.source)) body ::
        later ∧
      (itemsOf nested offset (.subselect opening inner closing :: segs)).notes =
        (nested start (sourceOf inner ++ closing.gap)).notes ++ (itemsOf nested stop segs).notes := by
  rw [itemsOf] at h ⊢
  obtain ⟨body, hbody, h, hnotes⟩ := Attempt.exists_of_bind h
  obtain ⟨later, hlater, h, hnotes'⟩ := Attempt.exists_of_bind h
  cases h
  refine ⟨_, _, body, later, hbody, hlater, rfl, ?_⟩
  rw [hnotes, hnotes']
  simp

theorem itemsOf_append (nested : Nat → Text → Attempt Text) (offset : Nat)
    (segs later : List Segment) :
    itemsOf nested offset (segs ++ later) =
      itemsOf nested offset segs >>= fun items =>
        itemsOf nested (offset + Text.byteSize (segs.flatMap Segment.source)) later >>= fun more =>
          pure (items ++ more) := by
  induction segs generalizing offset with
  | nil => simp [itemsOf]
  | cons s segs ih =>
      cases s with
      | token t =>
          have hsource : (Segment.token t).source = t.source := by simp [Segment.source, Segment.tokens]
          simp [itemsOf, ih, hsource, Nat.add_assoc]
      | subselect opening inner closing => simp [itemsOf, ih, Nat.add_assoc]

end Items

def nestedFilter (catalog : Catalog) (options : Options) (room depth : Nat) :
    Nat → Text → Attempt Text :=
  match room with
  | 0 => fun _ body => do
      Attempt.note (.nestedTooDeep options.maxDepth) (depth + 1)
      pure body
  | room + 1 => filterLevel catalog options room (depth + 1)

/-- What is left to do for a level once its sub-selects are filtered. `unclosed` are the tokens from
a sub-select on that is never closed, at byte `start`. -/
def closeLevel (catalog : Catalog) (options : Options) (depth start : Nat) (items : List Item)
    (unclosed : List Token) (tail : Text) : Attempt Text :=
  match unclosed with
  | _ :: _ => do
      Attempt.note (.unclosedSubselect start) depth
      pure (Level.outputWith ⟨items, sourceOf unclosed ++ tail⟩ [])
  | [] =>
      if (Level.mk items tail).namesTable catalog then do
        let edit ← Attempt.ofExcept ((Level.mk items tail).filterEdit catalog options)
        Attempt.constrain edit.constrained
        pure (Level.outputWith ⟨items, tail⟩ edit.edits)
      else pure (Level.outputWith ⟨items, tail⟩ [])

def unclosedAt (offset : Nat) (segs : List Segment) (unclosed : List Token) : Nat :=
  offset + Text.byteSize (segs.flatMap Segment.source ++ (unclosed.head?.map Token.gap).getD [])

theorem filterLevel_eq (catalog : Catalog) (options : Options) (room depth offset : Nat)
    (sql : Text) :
    filterLevel catalog options room depth offset sql =
      Attempt.ofExcept (Lexed.ofText sql) >>= fun l =>
        itemsOf (nestedFilter catalog options room depth) offset (segments l.tokens).1 >>=
          fun items =>
            closeLevel catalog options depth
              (unclosedAt offset (segments l.tokens).1 (segments l.tokens).2) items
              (segments l.tokens).2 l.tail := by
  cases room
  all_goals
    rw [filterLevel]
    congr 1
    funext l
    dsimp only
    congr 1
    funext items
    generalize (segments l.tokens).2 = unclosed
    cases unclosed <;> rfl

theorem filterLevel_of_lex {sql : Text} {l : Lexed} (hlex : lex sql = .ok l) (catalog : Catalog)
    (options : Options) (room depth offset : Nat) :
    filterLevel catalog options room depth offset sql =
      itemsOf (nestedFilter catalog options room depth) offset (segments l.tokens).1 >>= fun items =>
        closeLevel catalog options depth
          (unclosedAt offset (segments l.tokens).1 (segments l.tokens).2) items
          (segments l.tokens).2 l.tail := by
  have hlexed : Attempt.ofExcept (Lexed.ofText sql) = pure l := by
    rw [Lexed.ofText, hlex]
    rfl
  rw [filterLevel_eq, hlexed, pure_bind]

inductive LevelEnds (catalog : Catalog) (options : Options) (items : List Item) (tail : Text) :
    List Token → Text → Notes → Prop where
  | unclosed {t : Token} {ts : List Token} (p : Problem) :
      LevelEnds catalog options items tail (t :: ts)
        (Level.outputWith ⟨items, sourceOf (t :: ts) ++ tail⟩ []) ⟨[], [p]⟩
  | filtered {edit : LevelEdit} (hnames : (Level.mk items tail).namesTable catalog = true)
      (hedit : (Level.mk items tail).filterEdit catalog options = .ok edit) :
      LevelEnds catalog options items tail [] (Level.outputWith ⟨items, tail⟩ edit.edits)
        ⟨edit.constrained, []⟩
  | untouched (hnames : (Level.mk items tail).namesTable catalog = false) :
      LevelEnds catalog options items tail [] (Level.outputWith ⟨items, tail⟩ []) .empty

theorem closeLevel_ends {catalog : Catalog} {options : Options} {depth start : Nat}
    {items : List Item} {unclosed : List Token} {tail out : Text}
    (h : (closeLevel catalog options depth start items unclosed tail).result = .ok out) :
    LevelEnds catalog options items tail unclosed out
      (closeLevel catalog options depth start items unclosed tail).notes := by
  unfold closeLevel at h ⊢
  cases unclosed with
  | cons t ts =>
      cases h
      exact .unclosed _
  | nil =>
      dsimp only at h ⊢
      split at h
      · rename_i hnames
        rw [if_pos hnames]
        obtain ⟨edit, hedit, h, hnotes⟩ := Attempt.exists_of_bind h
        cases h
        have hedited : (Attempt.ofExcept ((Level.mk items tail).filterEdit catalog options) >>=
            fun edit => do
              Attempt.constrain edit.constrained
              pure (Level.outputWith ⟨items, tail⟩ edit.edits)).notes =
            ⟨edit.constrained, []⟩ := hnotes.trans (Notes.append_empty _)
        rw [hedited]
        exact .filtered hnames hedit
      · rename_i hnames
        rw [if_neg hnames]
        cases h
        exact .untouched (by simpa using hnames)

theorem filterLevel_cases {catalog : Catalog} {options : Options} {room depth offset : Nat}
    {sql out : Text} (h : (filterLevel catalog options room depth offset sql).result = .ok out) :
    ∃ l items notes, lex sql = .ok l ∧
      (itemsOf (nestedFilter catalog options room depth) offset (segments l.tokens).1).result =
        .ok items ∧
      LevelEnds catalog options items l.tail (segments l.tokens).2 out notes ∧
      (filterLevel catalog options room depth offset sql).notes =
        (itemsOf (nestedFilter catalog options room depth) offset (segments l.tokens).1).notes ++
          notes := by
  rw [filterLevel_eq] at h ⊢
  obtain ⟨l, hl, h, hnotes⟩ := Attempt.exists_of_bind h
  rw [hnotes]
  obtain ⟨items, hitems, h, hnotes⟩ := Attempt.exists_of_bind h
  rw [hnotes]
  exact ⟨l, items, _, lex_of_ofText hl, hitems, closeLevel_ends h, rfl⟩

end SoftDelete
