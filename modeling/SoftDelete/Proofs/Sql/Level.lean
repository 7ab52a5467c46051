import SoftDelete.Sql.Level

namespace SoftDelete

theorem Item.spells_eq {i : Item} {word : String} (h : i.spells word = true) (other : String) :
    i.spells other = Text.sameWord word.toList other.toList := by
  cases i with
  | subselect gap text body => cases h
  | token t =>
      simp only [spells, Token.spells, Bool.and_eq_true] at h ⊢
      obtain ⟨hkind, hword⟩ := h
      simp only [Text.sameWord, beq_iff_eq] at hword
      simp [hkind, Text.sameWord, hword]

theorem Item.spells_eq_false {i : Item} (h : i.kind? ≠ some .word) (word : String) :
    i.spells word = false := by
  cases i with
  | subselect gap text body => rfl
  | token t =>
      have hkind : t.kind ≠ .word := fun hkind => h (congrArg some hkind)
      simp [spells, Token.spells, hkind]

theorem Token.kind_of_spells {t : Token} {word : String} (h : t.spells word = true) :
    t.kind = .word := by
  simpa using (Bool.and_eq_true_iff.1 h).1

theorem Item.kind?_of_spells {i : Item} {word : String} (h : i.spells word = true) :
    i.kind? = some .word := by
  cases i with
  | subselect gap text body => cases h
  | token t => exact congrArg some (Token.kind_of_spells h)

theorem Item.isSubselect_of_spells {i : Item} {word : String} (h : i.spells word = true) :
    i.isSubselect = false := by
  cases i with
  | token t => rfl
  | subselect => cases h

theorem Item.depthAfter_of_kind {i : Item} (hl : i.kind? ≠ some .lparen)
    (hr : i.kind? ≠ some .rparen) (depth : Nat) : i.depthAfter depth = depth := by
  unfold depthAfter
  split
  · contradiction
  · contradiction
  · rfl

theorem Item.depthAfter_of_spells {i : Item} {word : String} (h : i.spells word = true)
    (depth : Nat) : i.depthAfter depth = depth := by
  have hkind := kind?_of_spells h
  exact depthAfter_of_kind (by simp [hkind]) (by simp [hkind]) depth

theorem kind_of_enclosed? {α : Type} {kind? : α → Option Token.Kind} {depth : Nat}
    {xs inner rest : List α} {close : α} (h : enclosed? kind? depth xs = some (inner, close, rest)) :
    kind? close = some .rparen := by
  induction xs generalizing depth inner with
  | nil => cases h
  | cons x xs ih =>
      simp only [enclosed?] at h
      split at h
      · obtain ⟨⟨a, b, c⟩, hrest, heq⟩ := Option.map_eq_some_iff.1 h
        cases heq
        exact ih hrest
      · cases h
        assumption
      · obtain ⟨⟨a, b, c⟩, hrest, heq⟩ := Option.map_eq_some_iff.1 h
        cases heq
        exact ih hrest
      · obtain ⟨⟨a, b, c⟩, hrest, heq⟩ := Option.map_eq_some_iff.1 h
        cases heq
        exact ih hrest

def depthOver (depth : Nat) (items : List Item) : Nat :=
  items.foldl (fun depth i => i.depthAfter depth) depth

theorem depthOver_append (depth : Nat) (front rest : List Item) :
    depthOver depth (front ++ rest) = depthOver (depthOver depth front) rest :=
  List.foldl_append

theorem depthOver_behind {i : Item} {word : String} {front : List Item} (hi : i.spells word = true)
    (hfront : depthOver 0 front = 0) (back : List Item) :
    depthOver 0 (front ++ i :: back) = depthOver 0 back := by
  rw [depthOver_append, hfront]
  change depthOver (i.depthAfter 0) back = _
  rw [Item.depthAfter_of_spells hi]

def Avoids (word : String) : Nat → List Item → Prop
  | _, [] => True
  | depth, i :: items =>
      (depth = 0 → i.spells word = false) ∧ Avoids word (i.depthAfter depth) items

theorem Avoids.of_append {word : String} {depth : Nat} {front rest : List Item}
    (h : Avoids word depth (front ++ rest)) :
    Avoids word depth front ∧ Avoids word (depthOver depth front) rest := by
  induction front generalizing depth with
  | nil => exact ⟨trivial, h⟩
  | cons i front ih =>
      obtain ⟨hfront, hrest⟩ := ih h.2
      exact ⟨⟨h.1, hfront⟩, hrest⟩

theorem Avoids.append {word : String} {depth : Nat} {front rest : List Item}
    (h : Avoids word depth front) (h' : Avoids word (depthOver depth front) rest) :
    Avoids word depth (front ++ rest) := by
  induction front generalizing depth with
  | nil => exact h'
  | cons i front ih => exact ⟨h.1, ih h.2 h'⟩

section BreakAt

variable {stops : List Item → Bool} {depth : Nat} {items front rest : List Item} {i : Item}

theorem breakAt_rest
    (h : (breakAt stops depth items).2 = i :: rest) : stops (i :: rest) = true := by
  induction items generalizing depth with
  | nil => cases h
  | cons j items ih =>
      rw [breakAt] at h
      split at h
      · rename_i hstop
        obtain ⟨rfl, rfl⟩ := List.cons.inj h
        exact hstop.2
      · exact ih h

theorem spells_of_breakAt {word : String}
    (h : breakAt (startsWithWords [word]) depth items = (front, i :: rest)) :
    i.spells word = true := by
  simpa [startsWithWords] using breakAt_rest (Prod.ext_iff.1 h).2

theorem eq_append_of_breakAt (h : breakAt stops depth items = (front, rest)) :
    items = front ++ rest := by
  have hsplit := breakAt_append stops depth items
  rw [h] at hsplit
  exact hsplit.symm

theorem eq_of_breakAt (h : breakAt stops depth items = (front, [])) : items = front :=
  (eq_append_of_breakAt h).trans front.append_nil

theorem depthOver_breakAt (h : breakAt stops depth items = (front, i :: rest)) :
    depthOver depth front = 0 := by
  induction items generalizing depth front with
  | nil => cases h
  | cons j items ih =>
      rw [breakAt] at h
      split at h
      · rename_i hstop
        cases h
        exact hstop.1
      · obtain ⟨later, hlater⟩ : ∃ later, breakAt stops (j.depthAfter depth) items =
            (later, i :: rest) := ⟨_, Prod.ext rfl (Prod.ext_iff.1 h).2⟩
        rw [hlater] at h
        cases h
        have hend : depthOver (j.depthAfter depth) later = 0 := ih hlater
        exact hend

theorem avoids_of_breakAt {word : String}
    (h : breakAt (startsWithWords [word]) depth items = (front, rest)) :
    Avoids word depth front := by
  induction items generalizing depth front with
  | nil =>
      cases h
      exact trivial
  | cons j items ih =>
      rw [breakAt] at h
      split at h
      · cases h
        exact trivial
      · rename_i hstop
        cases h
        refine ⟨fun hdepth => ?_, ih rfl⟩
        simpa [startsWithWords, hdepth] using hstop

theorem breakAt_length_le (hdepth : depthOver depth front = 0)
    (hstop : stops rest = true) (hne : rest ≠ []) :
    (breakAt stops depth (front ++ rest)).1.length ≤ front.length := by
  induction front generalizing depth with
  | nil =>
      obtain ⟨i, rest, rfl⟩ := List.exists_cons_of_ne_nil hne
      have hzero : depth = 0 := hdepth
      simp [breakAt, hzero, hstop]
  | cons i front ih =>
      rw [List.cons_append, breakAt]
      split
      · exact Nat.zero_le _
      · exact Nat.succ_le_succ (ih hdepth)

theorem breakAt_of_avoids {word : String} (h : Avoids word depth items) :
    breakAt (startsWithWords [word]) depth items = (items, []) := by
  induction items generalizing depth with
  | nil => rfl
  | cons i items ih =>
      rw [breakAt, if_neg, ih h.2]
      rintro ⟨hdepth, hstop⟩
      simp [startsWithWords, h.1 hdepth] at hstop

theorem length_le_breakAt {word : String} (h : Avoids word depth items) (rest : List Item) :
    items.length ≤ (breakAt (startsWithWords [word]) depth (items ++ rest)).1.length := by
  induction items generalizing depth with
  | nil => exact Nat.zero_le _
  | cons i items ih =>
      rw [List.cons_append, breakAt, if_neg]
      · exact Nat.succ_le_succ (ih h.2)
      · rintro ⟨hdepth, hstop⟩
        simp [startsWithWords, h.1 hdepth] at hstop

theorem exists_of_not_avoids {word : String} (h : ¬ Avoids word depth items) :
    ∃ front i back, items = front ++ i :: back ∧ i.spells word = true ∧ depthOver depth front = 0 ∧
      ∀ rest, (breakAt (startsWithWords [word]) depth (items ++ rest)).1 = front := by
  induction items generalizing depth with
  | nil => exact absurd trivial h
  | cons i items ih =>
      by_cases hstop : depth = 0 ∧ i.spells word = true
      · refine ⟨[], i, items, rfl, hstop.2, hstop.1, fun rest => ?_⟩
        rw [List.cons_append, breakAt, if_pos (by simpa [startsWithWords] using hstop)]
      · have hlater : ¬ Avoids word (i.depthAfter depth) items := by
          intro havoids
          refine h ⟨fun hdepth => ?_, havoids⟩
          simpa [hdepth] using hstop
        obtain ⟨front, j, back, rfl, hj, hdepth, hbreak⟩ := ih hlater
        refine ⟨i :: front, j, back, rfl, hj, hdepth, fun rest => ?_⟩
        rw [List.cons_append, breakAt, if_neg (by simpa [startsWithWords] using hstop)]
        exact congrArg (i :: ·) (hbreak rest)

end BreakAt

end SoftDelete
