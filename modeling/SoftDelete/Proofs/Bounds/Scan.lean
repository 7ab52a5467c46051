import SoftDelete.Proofs.Bounds.Cursor
import SoftDelete.Proofs.Union.Lookahead

namespace SoftDelete

theorem findM?_eq {α : Type} {xs : List α} {p? : α → Option Bool} {p : α → Bool}
    (h : ∀ x ∈ xs, p? x = some (p x)) : xs.findM? p? = some (xs.find? p) := by
  induction xs with
  | nil => rfl
  | cons x xs ih =>
      rw [List.findM?, h x (by simp), List.find?]
      cases p x with
      | true => rfl
      | false => exact ih fun y hy => h y (List.mem_cons_of_mem x hy)

def depthsFrom? (depth : Nat) : List Item → Option (List Nat)
  | [] => some []
  | i :: items =>
      match i.kind? with
      | some .lparen => do
          let front ← minus? (depth + 1) 1
          let later ← depthsFrom? (depth + 1) items
          some (front :: later)
      | some .rparen => do
          let later ← depthsFrom? (depth - 1) items
          some ((depth - 1) :: later)
      | _ => do
          let later ← depthsFrom? depth items
          some (depth :: later)

theorem depthsFrom?_eq (depth : Nat) (items : List Item) :
    depthsFrom? depth items = some (depthsFrom depth items) := by
  induction items generalizing depth with
  | nil => rfl
  | cons i items ih =>
      rw [depthsFrom?, depthsFrom, Item.depthAfter]
      cases i.kind? with
      | none => simp [ih]
      | some kind => cases kind <;> simp [ih, minus?]

def firstOutside? (depths : List Nat) (stops : Nat → Option Bool) (start stop : Nat) :
    Option (Option Nat) :=
  (List.range' start (stop - start)).findM? fun n => do
    let depth ← depths[n]?
    if depth = 0 then stops n else some false

namespace Level

variable (l : Level)

def whole : Cursor :=
  ⟨l, l.items.length⟩

def opensClause? (n : Nat) : Option Bool := do
  let i ← l.whole.peek n
  if i.any (Item.hasKind · .semicolon) then some true
  else clauseHeads.anyM fun words => l.whole.startsWith words n

def endsReferences? (n : Nat) : Option Bool := do
  if ← l.whole.startsWith ["WHERE"] n then some true else l.opensClause? n

def namesTableIn? (catalog : Catalog) (first stop : Nat) : Option Bool :=
  if first ≤ stop ∧ stop ≤ l.items.length then
    (List.range' first (stop - first)).anyM fun n => do
      let i ← l.whole.peek n
      some (i.any (Item.namesTable catalog))
  else none

def bodiesFrom? (depths : List Nat) (start n : Nat) : Nat → Option (List ItemRange)
  | 0 => some [⟨start, n⟩]
  | left + 1 => do
      let depth ← depths[n]?
      let cuts ← l.whole.startsWith ["UNION"] n
      if depth = 0 ∧ cuts then do
        let later ← bodiesFrom? depths (n + 1) (n + 1) left
        some (⟨start, n⟩ :: later)
      else bodiesFrom? depths start (n + 1) left

variable {l}

theorem whole_within (l : Level) : l.whole.Within :=
  Nat.le_refl _

theorem peek_whole (n : Nat) : l.whole.peek n = some l.items[n]? := by
  rw [Cursor.peek_eq l.whole_within, ← List.head?_drop]
  exact congrArg (some ∘ List.head?) (l.itemsIn_length_eq n)

theorem startsWith_whole (words : List String) (n : Nat) :
    l.whole.startsWith words n = some (startsWithWords words (l.items.drop n)) := by
  rw [Cursor.startsWith_eq l.whole_within]
  exact congrArg (some ∘ startsWithWords words) (l.itemsIn_length_eq n)

theorem opensClause?_eq (n : Nat) : l.opensClause? n = some (opensClause (l.items.drop n)) := by
  have hheads : clauseHeads.anyM (fun words => l.whole.startsWith words n) =
      some (clauseHeads.any (startsWithWords · (l.items.drop n))) := by
    simp only [startsWith_whole]
    exact List.anyM_pure
  rw [opensClause?, peek_whole, hheads, opensClause, List.head?_drop]
  dsimp only [Option.bind_eq_bind, Option.bind_some]
  split
  · rename_i hsemicolon
    rw [hsemicolon, Bool.true_or]
  · rename_i hsemicolon
    rw [Bool.not_eq_true] at hsemicolon
    rw [hsemicolon, Bool.false_or]

theorem endsReferences?_eq (n : Nat) :
    l.endsReferences? n = some (endsReferences (l.items.drop n)) := by
  rw [endsReferences?, startsWith_whole, opensClause?_eq, endsReferences]
  cases startsWithWords ["WHERE"] (l.items.drop n) <;> rfl

theorem firstOutside?_eq {stops? : Nat → Option Bool} {stops : List Item → Bool}
    (hstops : ∀ n, stops? n = some (stops (l.items.drop n))) {start stop : Nat}
    (hstop : stop ≤ l.items.length) :
    firstOutside? l.depths stops? start stop =
      some ((List.range' start (stop - start)).find? fun n =>
        l.depths[n]? == some 0 && stops (l.items.drop n)) := by
  refine findM?_eq fun n hn => ?_
  have hlen : n < l.depths.length := by
    rw [depths, depthsFrom_length]
    have hmem := List.mem_range'_1.1 hn
    omega
  rw [List.getElem?_eq_getElem hlen, hstops]
  by_cases hdepth : l.depths[n] = 0
  · simp [hdepth]
  · simp [hdepth]

theorem seek_cases (stops : List Item → Bool) (start stop : Nat) :
    l.seek stops start stop = stop ∨
      start ≤ l.seek stops start stop ∧ l.seek stops start stop < stop := by
  unfold seek
  cases hfind : (List.range' start (stop - start)).find? fun n =>
      l.depths[n]? == some 0 && stops (l.items.drop n) with
  | none => exact .inl rfl
  | some n =>
      have hmem := List.mem_range'_1.1 (List.mem_of_find?_eq_some hfind)
      simp only [Option.getD_some]
      omega

theorem seek_le (stops : List Item → Bool) (start stop : Nat) : l.seek stops start stop ≤ stop := by
  have := l.seek_cases stops start stop
  omega

theorem le_seek (stops : List Item → Bool) {start stop : Nat} (h : start ≤ stop) :
    start ≤ l.seek stops start stop := by
  have := l.seek_cases stops start stop
  omega

theorem any_itemsIn (p : Item → Bool) (first count : Nat) :
    (l.itemsIn first (first + count)).any p =
      (List.range' first count).any fun n => l.items[n]?.any p := by
  induction count generalizing first with
  | zero => rw [Nat.add_zero, itemsIn_of_le (Nat.le_refl _)]; rfl
  | succ count ih =>
      have hstop : first + 1 + count = first + (count + 1) := by omega
      rw [List.range'_succ, List.any_cons, ← ih, hstop]
      cases hi : l.items[first]? with
      | none =>
          have hlen := List.getElem?_eq_none_iff.1 hi
          simp [itemsIn, List.drop_eq_nil_of_le, hlen, Nat.le_succ_of_le hlen]
      | some i =>
          rw [itemsIn_cons (by omega) hi]
          rfl

theorem namesTableIn?_eq (catalog : Catalog) {first stop : Nat} (h : first ≤ stop)
    (hstop : stop ≤ l.items.length) :
    l.namesTableIn? catalog first stop =
      some ((l.itemsIn first stop).any (Item.namesTable catalog)) := by
  have hany := any_itemsIn (l := l) (Item.namesTable catalog) first (stop - first)
  rw [Nat.add_sub_cancel' h] at hany
  rw [namesTableIn?, if_pos ⟨h, hstop⟩, hany]
  simp only [peek_whole, Option.bind_eq_bind, Option.bind_some]
  exact List.anyM_pure

theorem bodiesFrom?_eq {start n left : Nat} (h : n + left = l.items.length) :
    l.bodiesFrom? l.depths start n left =
      some (rangesBetween start l.items.length
        (((l.items.zip l.depths).drop n).findIdxs separatesBodies n)) := by
  have hdepths : l.depths.length = l.items.length := depthsFrom_length 0 l.items
  induction left generalizing start n with
  | zero =>
      have hnil : (l.items.zip l.depths).drop n = [] :=
        List.drop_eq_nil_of_le (by simp [List.length_zip]; omega)
      rw [bodiesFrom?, hnil, ← h]
      rfl
  | succ left ih =>
      have hn : n < l.items.length := by omega
      have hzip : n < (l.items.zip l.depths).length := by
        rw [List.length_zip]
        omega
      have hunion : startsWithWords ["UNION"] (l.items.drop n) = l.items[n].spells "UNION" := by
        rw [List.drop_eq_getElem_cons hn]
        simp [startsWithWords]
      rw [bodiesFrom?, startsWith_whole, hunion, List.getElem?_eq_getElem (hdepths ▸ hn),
        List.drop_eq_getElem_cons hzip, List.findIdxs_cons, List.getElem_zip]
      dsimp only [Option.bind_eq_bind, Option.bind_some]
      rw [ih (by omega), ih (by omega)]
      by_cases hcut : l.depths[n] = 0 ∧ l.items[n].spells "UNION" = true
      · simp [separatesBodies, hcut, rangesBetween]
      · have hkeep : separatesBodies (l.items[n], l.depths[n]) = false := by
          simpa [separatesBodies] using hcut
        rw [if_neg hcut, hkeep]
        rfl

theorem bounds_of_mem_rangesBetween {xs : List (Item × Nat)} {start n : Nat} {r : ItemRange}
    (hstart : start ≤ n)
    (h : r ∈ rangesBetween start (n + xs.length) (xs.findIdxs separatesBodies n)) :
    r.start ≤ r.stop ∧ r.stop ≤ n + xs.length := by
  induction xs generalizing start n with
  | nil =>
      obtain rfl := List.mem_singleton.1 h
      exact ⟨hstart, Nat.le_refl _⟩
  | cons x xs ih =>
      have hlen : n + (x :: xs).length = n + 1 + xs.length := by
        rw [List.length_cons]
        omega
      rw [List.findIdxs_cons, hlen] at h
      rw [hlen]
      split at h
      · rcases List.mem_cons.1 h with rfl | h
        · exact ⟨hstart, by simp only; omega⟩
        · exact ih (Nat.le_refl _) h
      · exact ih (Nat.le_succ_of_le hstart) h

theorem bounds_of_mem_bodyRanges {r : ItemRange} (h : r ∈ l.bodyRanges) :
    r.start ≤ r.stop ∧ r.stop ≤ l.items.length := by
  have hlen : l.items.length = 0 + (l.items.zip l.depths).length := by
    rw [List.length_zip, depths, depthsFrom_length, Nat.min_self, Nat.zero_add]
  rw [bodyRanges, unions, hlen] at h
  rw [hlen]
  exact bounds_of_mem_rangesBetween (Nat.le_refl 0) h

end Level

end SoftDelete
