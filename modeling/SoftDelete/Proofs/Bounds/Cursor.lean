import SoftDelete.Join.Reading.Basic
import SoftDelete.Proofs.Bounds.Rendering

namespace SoftDelete

/-- A run from one count of the nesting to another, with nothing left where it went out of bounds. -/
abbrev Run := ExceptT Failure (StateT Nat Option)

def minus? (a b : Nat) : Option Nat :=
  if b ≤ a then some (a - b) else none

namespace Run

variable {α β : Type}

def reach (o : Option α) : Run α :=
  ExceptT.mk fun d => o.map (.ok ·, d)

def ofExcept (r : Except Failure α) : Run α :=
  ExceptT.mk fun d => some (r, d)

def nested (limit : Nat) (e : Failure) (x : Run α) : Run α :=
  ExceptT.mk fun d =>
    if d = limit then some (.error e, d)
    else do
      let (r, deeper) ← x.run.run (d + 1)
      let d ← minus? deeper 1
      some (r, d)

def ComesTo (d : Nat) (x : Run α) (r : Except Failure α) : Prop :=
  x.run.run d = some (r, d)

@[simp] theorem reach_some_bind (a : α) (f : α → Run β) : reach (some a) >>= f = f a := rfl

namespace ComesTo

variable {d : Nat} {x : Run α} {r : Except Failure α}

theorem pure (d : Nat) (a : α) : ComesTo d (Pure.pure a) (.ok a) := rfl

theorem throw (d : Nat) (e : Failure) : ComesTo d (MonadExcept.throw e : Run α) (.error e) := rfl

theorem ofExcept (d : Nat) (r : Except Failure α) : ComesTo d (Run.ofExcept r) r := rfl

theorem bind {f : α → Run β} {g : α → Except Failure β} (h : ComesTo d x r)
    (hnext : ∀ a, r = .ok a → ComesTo d (f a) (g a)) : ComesTo d (x >>= f) (r >>= g) := by
  have hrun : (x >>= f).run.run d = x.run.run d >>= fun p => match p.1 with
      | .ok a => (f a).run.run p.2
      | .error e => some (.error e, p.2) := by
    rw [ExceptT.run_bind, StateT.run_bind]
    congr 1
    funext p
    cases p.1 <;> rfl
  rw [ComesTo, hrun, h]
  cases r with
  | error e => rfl
  | ok a => exact hnext a rfl

theorem adapt (h : ComesTo d x r) (f : Failure → Failure) :
    ComesTo d (ExceptT.adapt f x) (r.mapError f) := by
  have hrun : (ExceptT.adapt f x).run.run d =
      x.run.run d >>= fun p => some (p.1.mapError f, p.2) := rfl
  rw [ComesTo, hrun, h]
  rfl

theorem nested_full (limit : Nat) (e : Failure) (x : Run α) :
    ComesTo limit (nested limit e x) (.error e) := by
  unfold ComesTo nested
  exact if_pos rfl

theorem nested {limit : Nat} (hd : d ≠ limit) (e : Failure) (h : ComesTo (d + 1) x r) :
    ComesTo d (Run.nested limit e x) r := by
  unfold ComesTo Run.nested
  refine (if_neg hd).trans ?_
  rw [h]
  rfl

theorem mapM {xs : List α} {f : α → Run β} {g : α → Except Failure β}
    (h : ∀ a ∈ xs, ComesTo d (f a) (g a)) : ComesTo d (xs.mapM f) (xs.mapM g) := by
  induction xs with
  | nil => exact .pure d []
  | cons a xs ih =>
      rw [List.mapM_cons, List.mapM_cons]
      refine (h a (by simp)).bind fun b _ => ?_
      refine (ih fun c hc => h c (List.mem_cons_of_mem a hc)).bind fun bs _ => ?_
      exact .pure d (b :: bs)

end ComesTo

end Run

def Item.withText (text : Text) : Item → Item
  | .token t => .token { t with text }
  | .subselect gap _ body => .subselect gap text body

theorem Item.withText_self (i : Item) : i.withText i.text = i := by
  cases i <;> rfl

namespace Level

variable {l : Level}

theorem itemsIn_drop (l : Level) (n stop k : Nat) :
    (l.itemsIn n stop).drop k = l.itemsIn (n + k) stop := by
  rw [itemsIn, itemsIn, List.drop_take, List.drop_drop, Nat.sub_add_eq]

theorem itemsIn_take {n m stop : Nat} (h : m ≤ stop) :
    (l.itemsIn n stop).take (m - n) = l.itemsIn n m := by
  rw [itemsIn, itemsIn, List.take_take, Nat.min_eq_left (Nat.sub_le_sub_right h n)]

theorem itemsIn_of_le {n stop : Nat} (h : stop ≤ n) : l.itemsIn n stop = [] := by
  rw [itemsIn, Nat.sub_eq_zero_of_le h, List.take_zero]

theorem itemsIn_cons {n stop : Nat} {i : Item} (h : n < stop) (hi : l.items[n]? = some i) :
    l.itemsIn n stop = i :: l.itemsIn (n + 1) stop := by
  obtain ⟨hn, rfl⟩ := List.getElem?_eq_some_iff.1 hi
  rw [itemsIn, itemsIn, List.drop_eq_getElem_cons hn, Nat.sub_add_eq]
  rw [show stop - n = (stop - n - 1) + 1 by omega, List.take_succ_cons]
  rfl

theorem itemsIn_length_le (l : Level) {n stop : Nat} (h : n ≤ stop) :
    n + (l.itemsIn n stop).length ≤ stop := by
  rw [itemsIn, List.length_take]
  omega

theorem itemsIn_length_eq (l : Level) (n : Nat) : l.itemsIn n l.items.length = l.items.drop n := by
  rw [itemsIn, ← List.length_drop, List.take_length]

end Level

structure Cursor where
  level : Level
  stop : Nat

namespace Cursor

variable {α β : Type}

def peek (c : Cursor) (n : Nat) : Option (Option Item) :=
  if n < c.stop then do
    let i ← c.level.items[n]?
    let text ← c.level.text? n
    some (some (i.withText text))
  else some none

def startsWith (c : Cursor) : List String → Nat → Option Bool
  | [], _ => some true
  | word :: words, n => do
      match ← c.peek n with
      | none => some false
      | some i => if i.spells word then c.startsWith words (n + 1) else some false

def single (c : Cursor) (read : List Item → Except Failure α) (n : Nat) : Run α := do
  let i ← Run.reach (c.peek n)
  Run.ofExcept (read i.toList)

def linked (c : Cursor) (element : Nat → Run (α × Nat)) (link? : Item → Option β) (n : Nat) :
    Run (List (β × α) × Nat) :=
  if n < c.stop then do
    match ← Run.reach (c.peek n) with
    | none => pure ([], 0)
    | some i =>
        match link? i with
        | none => pure ([], 0)
        | some link => do
            let (first, k) ← element (n + 1)
            let (more, m) ← c.linked element link? (n + 1 + k)
            pure ((link, first) :: more, 1 + k + m)
  else pure ([], 0)
termination_by c.stop - n

def separated (c : Cursor) (element : Nat → Run (α × Nat)) (mark : Token.Kind) (n : Nat) :
    Run (List α × Nat) := do
  let (first, k) ← element n
  let (more, m) ← c.linked element (Reading.mark? mark) (n + k)
  pure (first :: more.map Prod.snd, k + m)

def dotted (c : Cursor) (first next : String) (n : Nat) : Run (List Text × Nat) := do
  let (head, k) ← c.single (Reading.name first) n
  let (parts, m) ← c.linked (c.single (Reading.name next)) (Reading.mark? .dot) (n + k)
  pure (head :: parts.map Prod.snd, k + m)

def Follows (c : Cursor) (d : Nat) (x : Nat → Run α) (read : List Item → Except Failure α) : Prop :=
  ∀ n, Run.ComesTo d (x n) (read (c.level.itemsIn n c.stop))

def Within (c : Cursor) : Prop :=
  c.stop ≤ c.level.items.length

theorem peek_of_getElem? {c : Cursor} {n : Nat} {i : Item} (hn : n < c.stop)
    (hi : c.level.items[n]? = some i) : c.peek n = some (some i) := by
  rw [peek, if_pos hn, hi, Level.text?_eq hi]
  exact congrArg (some ∘ some) i.withText_self

section Readers

variable {c : Cursor} (hc : c.Within) {d : Nat}

include hc

theorem peek_cases (n : Nat) :
    (c.stop ≤ n ∧ c.level.itemsIn n c.stop = [] ∧ c.peek n = some none) ∨
      ∃ i, n < c.stop ∧ c.level.items[n]? = some i ∧
        c.level.itemsIn n c.stop = i :: c.level.itemsIn (n + 1) c.stop ∧ c.peek n = some (some i) := by
  by_cases hn : n < c.stop
  · obtain ⟨i, hi⟩ : ∃ i, c.level.items[n]? = some i :=
      ⟨_, List.getElem?_eq_getElem (Nat.lt_of_lt_of_le hn hc)⟩
    exact .inr ⟨i, hn, hi, Level.itemsIn_cons hn hi, peek_of_getElem? hn hi⟩
  · have hle := Nat.le_of_not_lt hn
    exact .inl ⟨hle, Level.itemsIn_of_le hle, if_neg hn⟩

theorem peek_eq (n : Nat) : c.peek n = some (c.level.itemsIn n c.stop).head? := by
  obtain ⟨-, hitems, hpeek⟩ | ⟨i, -, -, hitems, hpeek⟩ := peek_cases hc n
  · rw [hitems, hpeek]
    rfl
  · rw [hitems, hpeek]
    rfl

theorem startsWith_eq (words : List String) (n : Nat) :
    c.startsWith words n = some (startsWithWords words (c.level.itemsIn n c.stop)) := by
  induction words generalizing n with
  | nil => cases c.level.itemsIn n c.stop <;> rfl
  | cons word words ih =>
      obtain ⟨-, hitems, hpeek⟩ | ⟨i, -, -, hitems, hpeek⟩ := peek_cases hc n
      · rw [startsWith, hitems, hpeek]
        rfl
      · rw [startsWith, hitems, hpeek, startsWithWords]
        simp only [Option.bind_eq_bind, Option.bind_some, ih]
        cases i.spells word <;> rfl

theorem findM?_startsWith (forms : List α) (words : α → List String) (n : Nat) :
    forms.findM? (fun form => c.startsWith (words form) n) =
      some (forms.find? fun form => startsWithWords (words form) (c.level.itemsIn n c.stop)) := by
  simp only [startsWith_eq hc]
  exact List.findM?_pure _ _

theorem single_follows {read : List Item → Except Failure α}
    (h : ∀ i rest, read (i :: rest) = read [i]) : c.Follows d (c.single read) read := by
  intro n
  obtain ⟨-, hitems, hpeek⟩ | ⟨i, -, -, hitems, hpeek⟩ := peek_cases hc n
  · rw [single, hpeek, hitems]
    exact .ofExcept d _
  · rw [single, hpeek, hitems, h]
    exact .ofExcept d _

theorem linked_follows {element : Nat → Run (α × Nat)} {link? : Item → Option β}
    {read : List Item → Except Failure (α × Nat)} (h : c.Follows d element read) :
    c.Follows d (c.linked element link?) (Reading.linked read link?) := by
  intro n
  induction hleft : c.stop - n using Nat.strongRecOn generalizing n with
  | ind left ih =>
      obtain ⟨-, hitems, hpeek⟩ | ⟨i, hn, -, hitems, hpeek⟩ := peek_cases hc n
      · rw [linked, hpeek, hitems, Reading.linked]
        split
        · exact .pure d _
        · exact .pure d _
      · rw [linked, if_pos hn, hpeek, hitems, Reading.linked]
        dsimp only [Run.reach_some_bind]
        cases link? i with
        | none => exact .pure d _
        | some link =>
            refine (h (n + 1)).bind ?_
            rintro ⟨first, k⟩ -
            dsimp only
            rw [Level.itemsIn_drop]
            refine (ih (c.stop - (n + 1 + k)) (by omega) (n + 1 + k) rfl).bind ?_
            rintro ⟨more, m⟩ -
            exact .pure d _

theorem separated_follows {element : Nat → Run (α × Nat)} {mark : Token.Kind}
    {read : List Item → Except Failure (α × Nat)} (h : c.Follows d element read) :
    c.Follows d (c.separated element mark) (Reading.separated read mark) := by
  intro n
  refine (h n).bind ?_
  rintro ⟨first, k⟩ -
  dsimp only
  rw [Level.itemsIn_drop]
  refine (linked_follows hc h (n + k)).bind ?_
  rintro ⟨more, m⟩ -
  exact .pure d _

theorem name_follows (what : String) :
    c.Follows d (c.single (Reading.name what)) (Reading.name what) :=
  single_follows hc fun _ _ => rfl

theorem expect_follows (kind : Token.Kind) (what : String) :
    c.Follows d (c.single (Reading.expect kind what)) (Reading.expect kind what) :=
  single_follows hc fun _ _ => rfl

theorem dotted_follows (first next : String) :
    c.Follows d (c.dotted first next) (Reading.dotted first next) := by
  intro n
  refine (name_follows hc first n).bind ?_
  rintro ⟨head, k⟩ -
  dsimp only
  rw [Level.itemsIn_drop]
  refine (linked_follows hc (name_follows hc next) (n + k)).bind ?_
  rintro ⟨more, m⟩ -
  exact .pure d _

end Readers

end Cursor

end SoftDelete
