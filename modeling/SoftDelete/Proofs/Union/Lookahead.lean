import SoftDelete.Proofs.Coverage.References
import SoftDelete.Proofs.Sql.Rendering
import SoftDelete.Proofs.Union.Ranges

namespace SoftDelete

def Level.seek (l : Level) (stops : List Item → Bool) (start stop : Nat) : Nat :=
  ((List.range' start (stop - start)).find? fun n =>
    l.depths[n]? == some 0 && stops (l.items.drop n)).getD stop

def seekWhereEdits (l : Level) (stop bodyStop : Nat) (condition : Text) : List Edit :=
  if stop < bodyStop ∧ startsWithWords ["WHERE"] (l.items.drop stop) then
    let own := l.seek opensClause (stop + 1) bodyStop
    if own = stop + 1 then [.insert (l.stopOf (stop + 1)) (' ' :: condition)]
    else
      [.insert (l.startOf (stop + 1)) ['('],
        .insert (l.stopOf own) (") AND ".toList ++ condition)]
  else [.insert (l.stopOf stop) (" WHERE ".toList ++ condition)]

def seekBodyEdit (catalog : Catalog) (options : Options) (l : Level) (body : ItemRange) :
    Except Failure LevelEdit :=
  let first := l.seek (startsWithWords ["FROM"]) body.start body.stop + 1
  let stop := l.seek endsReferences first body.stop
  if (l.itemsIn first stop).any (Item.namesTable catalog) then do
    let r ← References.parse Reading.maxNesting options.maxJoins first (l.itemsIn first stop)
      l.items[stop]?
    let plan := r.plan catalog
    let edits ← r.edits l options.column plan
    let added := plan.carried.toList.flatMap fun target =>
      seekWhereEdits l stop body.stop (filterCondition options.column target)
    .ok ⟨edits ++ added, plan.constrained⟩
  else .ok ⟨[], []⟩

namespace Reading

variable {after after' : Option Item}
  (hafter : after.any (Item.hasKind · .dot) = after'.any (Item.hasKind · .dot))

include hafter

theorem operand_after (room : Nat) : operand after room = operand after' room := by
  have hdot : ∀ rest : List Item, (rest.head? <|> after).any (Item.hasKind · .dot) =
      (rest.head? <|> after').any (Item.hasKind · .dot) := by
    intro rest
    cases rest with
    | nil => exact hafter
    | cons i rest => rfl
  induction room with
  | zero =>
      funext items
      rw [operand.eq_def, operand.eq_def after']
      simp only [hdot]
  | succ room ih =>
      funext items
      rw [operand.eq_def, operand.eq_def after']
      simp only [hdot, ih]

theorem comparison_after (room : Nat) : comparison after room = comparison after' room := by
  funext items
  simp only [comparison, operand_after hafter]

theorem term_after (room : Nat) : term after room = term after' room := by
  induction room with
  | zero =>
      funext items
      cases items <;> simp only [term, comparison_after hafter]
  | succ room ih =>
      funext items
      cases items <;> simp only [term, comparison_after hafter, ih]

theorem clause_after (room start : Nat) : clause after room start = clause after' room start := by
  funext items
  cases items with
  | nil => rfl
  | cons i rest => simp only [clause, condition, term_after hafter]

theorem join_after (room start : Nat) : join after room start = join after' room start := by
  funext items
  simp only [join, clause_after hafter]

theorem joins_after (room limit left start : Nat) (items : List Item) :
    joins after room limit left start items = joins after' room limit left start items := by
  induction left generalizing start items with
  | zero => cases items <;> rfl
  | succ left ih =>
      cases items with
      | nil => rfl
      | cons i rest => simp only [joins, join_after hafter, ih]

end Reading

theorem References.parse_after {after after' : Option Item}
    (hafter : after.any (Item.hasKind · .dot) = after'.any (Item.hasKind · .dot))
    (room maxJoins start : Nat) (items : List Item) :
    References.parse room maxJoins start items after =
      References.parse room maxJoins start items after' := by
  simp only [References.parse, Reading.joins_after hafter]

/-- Whether the search stops at an item does not depend on the items `post` behind the body. It stops
at no closing parenthesis, the only item whose depth is not the one in front of it. -/
structure StopsWithin (stops : List Item → Bool) (post : List Item) : Prop where
  append : ∀ i items, stops (i :: (items ++ post)) = stops (i :: items)
  not_closing : ∀ i items, stops (i :: items) = true → i.kind? ≠ some .rparen

theorem kind?_of_startsWithWords {words : List String} {i : Item} {items : List Item}
    (h : startsWithWords words (i :: items) = true) (hne : words ≠ []) : i.kind? = some .word := by
  obtain ⟨word, words, rfl⟩ := List.exists_cons_of_ne_nil hne
  exact Item.kind?_of_spells (Bool.and_eq_true_iff.1 h).1

namespace StopsWithin

variable {post : List Item}

theorem word (word : String) (post : List Item) : StopsWithin (startsWithWords [word]) post where
  append i items := by simp [startsWithWords]
  not_closing i items h := by simp [kind?_of_startsWithWords h]

theorem clause (h : Barred post) : StopsWithin opensClause post where
  append := h.opensClause_append
  not_closing i items hopens := by
    have hheads : ∀ words ∈ clauseHeads, words ≠ [] := by decide
    rcases Bool.or_eq_true_iff.1 hopens with hsemicolon | hwords
    · simp [Item.kind?_of_hasKind hsemicolon]
    · obtain ⟨words, hmem, hstarts⟩ := List.any_eq_true.1 hwords
      simp [kind?_of_startsWithWords hstarts (hheads words hmem)]

theorem references (h : Barred post) : StopsWithin endsReferences post where
  append := h.endsReferences_append
  not_closing i items hends := by
    rcases Bool.or_eq_true_iff.1 hends with hwhere | hopens
    · exact (word "WHERE" post).not_closing i items hwhere
    · exact (clause h).not_closing i items hopens

end StopsWithin

section Seek

variable {l : Level} {stops : List Item → Bool} {pre mid post : List Item} {depth : Nat}

theorem Level.stops_at {i : Item} (hstops : StopsWithin stops post)
    (h : l.items = pre ++ (i :: mid ++ post)) (hdepth : depthOver 0 pre = depth) :
    (l.depths[pre.length]? == some 0 && stops (l.items.drop pre.length)) =
      decide (depth = 0 ∧ stops (i :: mid) = true) := by
  have hget : l.depths[pre.length]? = some (min depth (i.depthAfter depth)) := by
    rw [depths, h, depthsFrom_append, hdepth,
      List.getElem?_append_right (Nat.le_of_eq (depthsFrom_length 0 pre)), depthsFrom_length,
      Nat.sub_self]
    rfl
  have hdrop : l.items.drop pre.length = i :: (mid ++ post) := by
    rw [h, List.drop_left, List.cons_append]
  rw [hget, hdrop, hstops.append]
  cases hstop : stops (i :: mid) with
  | false => simp
  | true =>
      have hopen := hstops.not_closing i mid hstop
      have hmin : min depth (i.depthAfter depth) = depth := by
        unfold Item.depthAfter
        split
        · exact Nat.min_eq_left (Nat.le_succ depth)
        · contradiction
        · exact Nat.min_self depth
      simp [hmin, Bool.beq_eq_decide_eq]

theorem Level.find?_eq (hstops : StopsWithin stops post) (h : l.items = pre ++ (mid ++ post))
    (hdepth : depthOver 0 pre = depth) :
    ((List.range' pre.length mid.length).find? fun n =>
        l.depths[n]? == some 0 && stops (l.items.drop n)).getD (pre.length + mid.length) =
      pre.length + (breakAt stops depth mid).1.length := by
  induction mid generalizing pre depth with
  | nil => rfl
  | cons i mid ih =>
      have hdepth' : depthOver 0 (pre ++ [i]) = i.depthAfter depth := by
        rw [depthOver_append, hdepth]
        rfl
      have hlater := ih (by simp [h]) hdepth'
      rw [List.length_cons, List.range'_succ, List.find?_cons, breakAt,
        Level.stops_at hstops h hdepth]
      by_cases hstop : depth = 0 ∧ stops (i :: mid) = true
      · simp [hstop]
      · rw [if_neg hstop, decide_eq_false hstop]
        simp only [List.length_append, List.length_singleton] at hlater
        simpa [Nat.add_assoc, Nat.add_comm 1] using hlater

theorem Level.seek_eq (hstops : StopsWithin stops post) (h : l.items = pre ++ (mid ++ post))
    (hclosed : depthOver 0 pre = 0) :
    l.seek stops pre.length (pre.length + mid.length) =
      pre.length + (breakAt stops 0 mid).1.length := by
  rw [seek, Nat.add_sub_cancel_left]
  exact Level.find?_eq hstops h hclosed

theorem seekWhereEdits_eq {after : List Item} (hpost : Barred post)
    (h : l.items = pre ++ (after ++ post)) (hclosed : after ≠ [] → depthOver 0 pre = 0)
    (condition : Text) :
    seekWhereEdits l pre.length (pre.length + after.length) condition =
      whereEdits l pre.length after condition := by
  cases after with
  | nil => simp [seekWhereEdits, whereEdits, startsWithWords]
  | cons w tail =>
      have hdrop : l.items.drop pre.length = w :: (tail ++ post) := by
        rw [h, List.drop_left, List.cons_append]
      rw [seekWhereEdits, whereEdits, hdrop, (StopsWithin.word "WHERE" post).append]
      by_cases hwhere : startsWithWords ["WHERE"] (w :: tail) = true
      · have hw : w.spells "WHERE" = true := by simpa [startsWithWords] using hwhere
        have hbehind : depthOver 0 (pre ++ [w]) = 0 := depthOver_behind hw (hclosed (by simp)) []
        have hsplit : l.items = pre ++ [w] ++ (tail ++ post) := by simp [h]
        have hown := Level.seek_eq (.clause hpost) hsplit hbehind
        rw [List.length_append, List.length_singleton] at hown
        rw [if_pos ⟨by simp, hwhere⟩, if_pos hwhere, List.length_cons, Nat.add_comm tail.length,
          ← Nat.add_assoc, hown]
        simp only [List.tail_cons, List.isEmpty_iff, Nat.add_eq_left, List.length_eq_zero_iff]
      · rw [if_neg (by simp [hwhere]), if_neg hwhere]

end Seek

section Bodies

variable (catalog : Catalog) (options : Options) {l : Level}

theorem Level.HasBody.barred {pre body post : List Item} (h : l.HasBody pre body post) :
    Barred post :=
  fun i hi => .of_spells (h.ends i hi) (by decide) (by decide)

theorem Level.HasBody.closed_from {pre body post front items after : List Item} {f : Item}
    (h : l.HasBody pre body post) (hparts : BodyParts body front f items after) :
    depthOver 0 (pre ++ (front ++ [f])) = 0 := by
  rw [depthOver_append, h.closed]
  exact depthOver_behind hparts.spells_from (depthOver_breakAt hparts.front_eq) []

theorem bodyEdit_eq_seek {pre body post : List Item} (h : l.HasBody pre body post) :
    bodyEdit catalog options l pre.length body =
      seekBodyEdit catalog options l ⟨pre.length, pre.length + body.length⟩ := by
  have hfrom := Level.seek_eq (.word "FROM" post) h.items_eq h.closed
  rcases exists_parts body with hnone | ⟨front, f, items, after, hparts⟩
  · have hempty : ∀ stop, l.seek endsReferences (stop + 1) stop = stop := by simp [Level.seek]
    rw [hnone] at hfrom
    rw [bodyEdit_of_noFrom catalog options l _ hnone]
    simp only [seekBodyEdit, hfrom, hempty]
    simp [Level.itemsIn]
  · -- `table` is what stands in front of the table references, of which the `FROM` is the last.
    obtain ⟨table, htable⟩ : ∃ table, table = pre ++ (front ++ [f]) := ⟨_, rfl⟩
    have hclosed : depthOver 0 table = 0 := htable ▸ h.closed_from hparts
    have hsplit : l.items = table ++ (items ++ after ++ post) := by
      simp [htable, h.items_eq, hparts.body_eq]
    have hfirst : pre.length + front.length + 1 = table.length := by simp [htable, Nat.add_assoc]
    have hstop : pre.length + body.length = table.length + items.length + after.length := by
      rw [← hfirst, hparts.body_eq, List.length_append, List.length_cons, List.length_append]
      omega
    have hends := Level.seek_eq (.references h.barred) hsplit hclosed
    have hin : l.itemsIn table.length (table.length + items.length) = items :=
      Level.itemsIn_length table items (after ++ post) (by simp [hsplit])
    have hget : l.items[table.length + items.length]? = (after ++ post).head? := by
      rw [hsplit, List.append_assoc, ← List.append_assoc, ← List.length_append,
        List.getElem?_append_right (Nat.le_refl _), Nat.sub_self, List.head?_eq_getElem?]
    have hbehind : l.items = table ++ items ++ (after ++ post) := by simp [hsplit]
    have hwhere := seekWhereEdits_eq h.barred hbehind fun hne => by
      obtain ⟨w, later, rfl⟩ := List.exists_cons_of_ne_nil hne
      rw [depthOver_append, hclosed, depthOver_breakAt hparts.items_eq]
    rw [hparts.front_eq, hstop] at hfrom
    rw [hparts.items_eq, List.length_append, ← Nat.add_assoc] at hends
    rw [List.length_append] at hwhere
    rw [bodyEdit_of_parts catalog options l _ hparts]
    simp only [seekBodyEdit, hstop, hfrom, hfirst, hends, hin, hget, hwhere]
    rw [References.parse_after (h.barred.dot_append after)]

theorem Level.filterEdit_eq_seek (l : Level) :
    l.filterEdit catalog options =
      LevelEdit.concat <$> l.bodyRanges.mapM (seekBodyEdit catalog options l) :=
  filterEdit_eq_mapM catalog options (bodyEdit_eq_seek catalog options)

end Bodies

end SoftDelete
