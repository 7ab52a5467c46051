import SoftDelete.Sql.Level

namespace SoftDelete

section Counts

variable {α : Type} (kind? : α → Option Token.Kind)

def openings (xs : List α) : Nat :=
  xs.countP fun x => kind? x == some .lparen

def closings (xs : List α) : Nat :=
  xs.countP fun x => kind? x == some .rparen

def StaysOpen (depth : Nat) (xs : List α) : Prop :=
  ∀ front, front <+: xs → closings kind? front ≤ depth + openings kind? front

variable {kind?} {depth : Nat} {x : α} {xs ys : List α}

theorem openings_append : openings kind? (xs ++ ys) = openings kind? xs + openings kind? ys :=
  List.countP_append

theorem closings_append : closings kind? (xs ++ ys) = closings kind? xs + closings kind? ys :=
  List.countP_append

theorem openings_cons : openings kind? (x :: xs) =
    openings kind? xs + if kind? x = some .lparen then 1 else 0 := by
  simp [openings, List.countP_cons]

theorem closings_cons : closings kind? (x :: xs) =
    closings kind? xs + if kind? x = some .rparen then 1 else 0 := by
  simp [closings, List.countP_cons]

theorem counts_of_flat (h : ∀ y ∈ xs, kind? y ≠ some .lparen ∧ kind? y ≠ some .rparen) :
    openings kind? xs = 0 ∧ closings kind? xs = 0 := by
  simp only [openings, closings, List.countP_eq_zero, beq_iff_eq]
  exact ⟨fun y hy => (h y hy).1, fun y hy => (h y hy).2⟩

theorem staysOpen_nil : StaysOpen kind? depth [] := by
  intro front hfront
  obtain rfl := List.prefix_nil.1 hfront
  simp [closings]

theorem staysOpen_cons : StaysOpen kind? depth (x :: xs) ↔
    ∀ front, front <+: xs →
      closings kind? (x :: front) ≤ depth + openings kind? (x :: front) := by
  constructor
  · intro h front hfront
    exact h (x :: front) (List.cons_prefix_cons.2 ⟨rfl, hfront⟩)
  · intro h front hfront
    rcases List.prefix_cons_iff.1 hfront with rfl | ⟨later, rfl, hlater⟩
    · simp [closings]
    · exact h later hlater

theorem staysOpen_opening (h : kind? x = some .lparen) :
    StaysOpen kind? depth (x :: xs) ↔ StaysOpen kind? (depth + 1) xs := by
  rw [staysOpen_cons]
  simp [openings_cons, closings_cons, h, StaysOpen, Nat.add_assoc, Nat.add_comm 1]

theorem staysOpen_closing (h : kind? x = some .rparen) :
    StaysOpen kind? (depth + 1) (x :: xs) ↔ StaysOpen kind? depth xs := by
  rw [staysOpen_cons]
  simp [openings_cons, closings_cons, h, StaysOpen, Nat.add_right_comm depth 1]

theorem not_staysOpen_closing (h : kind? x = some .rparen) : ¬ StaysOpen kind? 0 (x :: xs) := by
  intro hopen
  have hfirst := hopen [x] (by simp)
  simp [openings, closings, h] at hfirst

theorem staysOpen_other (hl : kind? x ≠ some .lparen) (hr : kind? x ≠ some .rparen) :
    StaysOpen kind? depth (x :: xs) ↔ StaysOpen kind? depth xs := by
  rw [staysOpen_cons]
  simp [openings_cons, closings_cons, hl, hr, StaysOpen]

theorem enclosed?_opening (h : kind? x = some .lparen) :
    enclosed? kind? depth (x :: xs) =
      (enclosed? kind? (depth + 1) xs).map fun (inner, close, rest) => (x :: inner, close, rest) := by
  simp [enclosed?, h]

theorem enclosed?_closing_zero (h : kind? x = some .rparen) :
    enclosed? kind? 0 (x :: xs) = some ([], x, xs) := by
  simp [enclosed?, h]

theorem enclosed?_closing_succ (h : kind? x = some .rparen) :
    enclosed? kind? (depth + 1) (x :: xs) =
      (enclosed? kind? depth xs).map fun (inner, close, rest) => (x :: inner, close, rest) := by
  simp [enclosed?, h]

theorem enclosed?_other (hl : kind? x ≠ some .lparen) (hr : kind? x ≠ some .rparen) :
    enclosed? kind? depth (x :: xs) =
      (enclosed? kind? depth xs).map fun (inner, close, rest) => (x :: inner, close, rest) := by
  simp only [enclosed?]
  split
  · exact absurd ‹_› hl
  · exact absurd ‹_› hr
  · exact absurd ‹_› hr
  · rfl

theorem enclosed?_eq_none : enclosed? kind? depth xs = none ↔ StaysOpen kind? depth xs := by
  induction xs generalizing depth with
  | nil => simp [enclosed?, staysOpen_nil]
  | cons x xs ih =>
      by_cases hl : kind? x = some .lparen
      · rw [enclosed?_opening hl, Option.map_eq_none_iff, ih, staysOpen_opening hl]
      by_cases hr : kind? x = some .rparen
      · cases depth with
        | zero =>
            rw [enclosed?_closing_zero hr]
            simpa using not_staysOpen_closing hr
        | succ depth =>
            rw [enclosed?_closing_succ hr, Option.map_eq_none_iff, ih, staysOpen_closing hr]
      · rw [enclosed?_other hl hr, Option.map_eq_none_iff, ih, staysOpen_other hl hr]

theorem enclosed?_of_append {inner rest : List α} {close : α}
    (h : enclosed? kind? depth xs = some (inner, close, rest))
    (more : List α) :
    enclosed? kind? depth (inner ++ close :: more) = some (inner, close, more) := by
  induction xs generalizing depth inner with
  | nil => cases h
  | cons x xs ih =>
      simp only [enclosed?] at h
      split at h
      · obtain ⟨⟨a, b, c⟩, hrest, heq⟩ := Option.map_eq_some_iff.1 h
        cases heq
        simp [enclosed?, ih hrest, *]
      · cases h
        simp [enclosed?, *]
      · obtain ⟨⟨a, b, c⟩, hrest, heq⟩ := Option.map_eq_some_iff.1 h
        cases heq
        simp [enclosed?, ih hrest, *]
      · obtain ⟨⟨a, b, c⟩, hrest, heq⟩ := Option.map_eq_some_iff.1 h
        cases heq
        simp only [List.cons_append, enclosed?, ih hrest]
        rfl

theorem staysOpen_of_enclosed? {inner rest : List α} {close : α}
    (h : enclosed? kind? depth xs = some (inner, close, rest)) : StaysOpen kind? depth inner := by
  rw [← enclosed?_eq_none, Option.eq_none_iff_forall_ne_some]
  rintro ⟨first, c, more⟩ hfirst
  have hsplit := append_of_enclosed? hfirst
  have hearlier := enclosed?_of_append hfirst (more ++ close :: rest)
  have hwhole : first ++ c :: (more ++ close :: rest) = xs := by
    rw [append_of_enclosed? h, hsplit]
    simp
  rw [hwhole, h] at hearlier
  obtain rfl : inner = first := congrArg Prod.fst (Option.some.inj hearlier)
  simp at hsplit

theorem closings_of_enclosed? {inner rest : List α} {close : α}
    (h : enclosed? kind? depth xs = some (inner, close, rest)) :
    closings kind? inner = depth + openings kind? inner := by
  induction xs generalizing depth inner with
  | nil => cases h
  | cons x xs ih =>
      have hlater : ∀ {d : Nat},
          ((enclosed? kind? d xs).map fun (inner, close, rest) => (x :: inner, close, rest)) =
            some (inner, close, rest) →
          ∃ later, inner = x :: later ∧ closings kind? later = d + openings kind? later := by
        intro d hd
        obtain ⟨⟨later, c, r⟩, hrest, heq⟩ := Option.map_eq_some_iff.1 hd
        cases heq
        exact ⟨later, rfl, ih hrest⟩
      by_cases hl : kind? x = some .lparen
      · rw [enclosed?_opening hl] at h
        obtain ⟨later, rfl, hcount⟩ := hlater h
        simp [openings_cons, closings_cons, hl, hcount, Nat.add_assoc, Nat.add_comm 1]
      by_cases hr : kind? x = some .rparen
      · cases depth with
        | zero =>
            rw [enclosed?_closing_zero hr] at h
            cases h
            simp [openings, closings]
        | succ depth =>
            rw [enclosed?_closing_succ hr] at h
            obtain ⟨later, rfl, hcount⟩ := hlater h
            simp [openings_cons, closings_cons, hr, hcount, Nat.add_right_comm depth 1]
      · rw [enclosed?_other hl hr] at h
        obtain ⟨later, rfl, hcount⟩ := hlater h
        simp [openings_cons, closings_cons, hl, hr, hcount]

theorem enclosed?_of_counts {inner : List α} {close : α} (hclose : kind? close = some .rparen)
    (hopen : StaysOpen kind? depth inner)
    (hcount : closings kind? inner = depth + openings kind? inner) (rest : List α) :
    enclosed? kind? depth (inner ++ close :: rest) = some (inner, close, rest) := by
  induction inner generalizing depth with
  | nil =>
      obtain rfl : depth = 0 := by simpa [openings, closings] using hcount.symm
      exact enclosed?_closing_zero hclose
  | cons x inner ih =>
      rw [closings_cons, openings_cons] at hcount
      rw [List.cons_append]
      by_cases hl : kind? x = some .lparen
      · rw [staysOpen_opening hl] at hopen
        rw [enclosed?_opening hl, ih hopen (by simp [hl] at hcount; omega)]
        rfl
      by_cases hr : kind? x = some .rparen
      · cases depth with
        | zero => exact absurd hopen (not_staysOpen_closing hr)
        | succ depth =>
            rw [staysOpen_closing hr] at hopen
            rw [enclosed?_closing_succ hr, ih hopen (by simp [hr] at hcount; omega)]
            rfl
      · rw [staysOpen_other hl hr] at hopen
        rw [enclosed?_other hl hr, ih hopen (by simpa [hl, hr] using hcount)]
        rfl

end Counts

theorem enclosed?_map {α β : Type} (u : α → β) (kind? : β → Option Token.Kind) (depth : Nat)
    (xs : List α) :
    enclosed? kind? depth (xs.map u) = (enclosed? (fun a => kind? (u a)) depth xs).map
      fun (inner, close, rest) => (inner.map u, u close, rest.map u) := by
  induction xs generalizing depth with
  | nil => rfl
  | cons x xs ih =>
      simp only [List.map_cons, enclosed?]
      split <;> simp [*, Function.comp_def]

theorem enclosed?_of_kinds {α : Type} {kind? : α → Option Token.Kind} {depth : Nat}
    {inner rest inner' : List α} {close close' : α}
    (h : enclosed? kind? depth (inner ++ close :: rest) = some (inner, close, rest))
    (hinner : inner'.map kind? = inner.map kind?) (hclose : kind? close' = kind? close)
    (more : List α) :
    enclosed? kind? depth (inner' ++ close' :: more) = some (inner', close', more) := by
  have hkinds : (inner' ++ [close']).map kind? = (inner ++ [close]).map kind? := by
    simp [hinner, hclose]
  have hgiven := enclosed?_map kind? id depth (inner ++ [close])
  have hnew := enclosed?_map kind? id depth (inner' ++ [close'])
  simp only [id] at hgiven hnew
  rw [enclosed?_of_append h []] at hgiven
  rw [hkinds, hgiven] at hnew
  obtain ⟨⟨front, c, back⟩, hfound, heq⟩ := Option.map_eq_some_iff.1 hnew.symm
  obtain rfl : back = [] := by simpa using (Prod.mk.inj (Prod.mk.inj heq).2).2
  obtain ⟨rfl, hc⟩ := List.append_inj' (append_of_enclosed? hfound) rfl
  obtain rfl := List.head_eq_of_cons_eq hc
  exact enclosed?_of_append hfound more

end SoftDelete
