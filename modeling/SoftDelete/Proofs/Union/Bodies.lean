import SoftDelete.Proofs.Sql.Rendering
import SoftDelete.Proofs.Union.Ranges
import SoftDelete.Proofs.Union.Relocation

namespace SoftDelete

def Item.behind (front : Text) : Item → Item
  | .token t => .token { t with gap := front ++ t.gap }
  | .subselect gap text body => .subselect (front ++ gap) text body

namespace Item

variable (front : Text) (i : Item)

@[simp] theorem gap_behind : (i.behind front).gap = front ++ i.gap := by
  cases i <;> rfl

@[simp] theorem source_behind : (i.behind front).source = front ++ i.source := by
  cases i <;> simp [behind, source, gap, text]

@[simp] theorem spells_behind (word : String) : (i.behind front).spells word = i.spells word := by
  cases i <;> rfl

@[simp] theorem depthAfter_behind (depth : Nat) :
    (i.behind front).depthAfter depth = i.depthAfter depth := by
  cases i <;> rfl

end Item

theorem avoids_behind {word : String} {depth : Nat} {i : Item} {items : List Item} (front : Text) :
    Avoids word depth (i.behind front :: items) ↔ Avoids word depth (i :: items) := by
  simp [Avoids]

namespace Level

def only (l : Level) (r : ItemRange) : Level :=
  match l.itemsIn r.start r.stop with
  | [] => ⟨[], l.source⟩
  | i :: items =>
      ⟨i.behind (l.upTo r.start) :: items, (l.items.drop r.stop).flatMap Item.source ++ l.tail⟩

theorem only_source (l : Level) (r : ItemRange) : (l.only r).source = l.source := by
  unfold only
  split
  · rfl
  · rename_i i items hin
    have hle : r.start ≤ r.stop := by
      by_contra hlt
      simp [itemsIn, Nat.sub_eq_zero_of_le (Nat.le_of_not_le hlt)] at hin
    have hsplit : l.items = l.items.take r.start ++ (i :: items ++ l.items.drop r.stop) := by
      have hrest := List.take_append_drop (r.stop - r.start) (l.items.drop r.start)
      rw [List.drop_drop, Nat.add_sub_cancel' hle] at hrest
      rw [← hin, itemsIn, hrest, List.take_append_drop]
    have htext := congrArg (List.flatMap Item.source) hsplit
    simp only [source, upTo]
    rw [htext]
    simp

section Place

variable {l : Level} {pre items post : List Item} {i : Item}
  (h : l.items = pre ++ (i :: items ++ post))

include h

theorem only_eq :
    l.only ⟨pre.length, pre.length + (i :: items).length⟩ =
      ⟨i.behind (pre.flatMap Item.source) :: items, post.flatMap Item.source ++ l.tail⟩ := by
  have hin := itemsIn_length pre (i :: items) post h
  simp only [only, hin, upTo, h, List.take_left]
  rw [← List.append_assoc, ← List.length_append, List.drop_left]

theorem shows_only :
    l.Shows (l.only ⟨pre.length, pre.length + (i :: items).length⟩) pre.length
      (i :: items).length := by
  rw [only_eq h]
  have hupTo : ∀ n, n ≤ items.length → l.upTo (pre.length + (n + 1)) =
      pre.flatMap Item.source ++ (i.source ++ (items.take n).flatMap Item.source) := by
    intro n hn
    rw [upTo, h, List.take_length_add_append, List.cons_append, List.take_succ_cons,
      List.take_append_of_le_length hn]
    simp
  refine ⟨fun n hpos hle => ?_, fun n hlt => ?_, fun a b ha hb => ?_⟩
  · obtain ⟨n, rfl⟩ := Nat.exists_eq_add_one.2 hpos
    rw [hupTo n (Nat.le_of_succ_le_succ hle)]
    simp [upTo]
  · cases n with
    | zero => simp [before, upTo, h]
    | succ n =>
        have hn : n < items.length := Nat.lt_of_succ_lt_succ hlt
        have hget : l.items[pre.length + (n + 1)]? = items[n]? := by
          rw [h, List.getElem?_append_right (Nat.le_add_right _ _), Nat.add_sub_cancel_left,
            List.cons_append, List.getElem?_cons_succ, List.getElem?_append_left hn]
        rw [before, hupTo n (Nat.le_of_lt hn), hget]
        simp [before, upTo]
  · obtain ⟨a, rfl⟩ := Nat.exists_eq_add_one.2 ha
    rw [itemsIn, itemsIn, h, Nat.add_sub_add_left, List.drop_length_add_append]
    simp only [List.cons_append, List.drop_succ_cons, List.drop_append, List.take_append,
      List.length_drop]
    rw [List.length_cons] at hb
    rw [show b - (a + 1) - (items.length - a) = 0 by omega, List.take_zero, List.append_nil]

end Place

end Level

section Body

variable {l m : Level} {k : Nat}

theorem whereEdits_shift {n stop : Nat} {after : List Item} (h : l.Shows m k n) (hpos : 0 < stop)
    (hstop : stop + after.length ≤ n) (condition : Text) :
    whereEdits l (k + stop) after condition = whereEdits m stop after condition := by
  have hcut := congrArg List.length (breakAt_append opensClause 0 after.tail)
  rw [List.length_append, List.length_tail] at hcut
  unfold whereEdits
  split
  · rename_i hwhere
    have hne : 0 < after.length := by
      cases after with
      | nil => cases hwhere
      | cons i rest => exact Nat.succ_pos _
    dsimp only
    split
    · rw [Nat.add_assoc, h.stopOf (by omega) (by omega)]
    · rename_i hown
      have hlen := List.length_pos_iff.2 (by simpa using hown)
      rw [Nat.add_assoc, Nat.add_assoc, h.startOf (by omega), h.stopOf (by omega) (by omega)]
  · rw [h.stopOf hpos (by omega)]

variable (catalog : Catalog) (options : Options)

theorem bodyEdit_shift {body : List Item} (h : l.Shows m k body.length) :
    bodyEdit catalog options l k body = bodyEdit catalog options m 0 body := by
  rcases exists_parts body with hnone | ⟨front, f, items, after, hparts⟩
  · rw [bodyEdit_of_noFrom catalog options l k hnone, bodyEdit_of_noFrom catalog options m 0 hnone]
  · have hlen : body.length = front.length + 1 + items.length + after.length := by
      rw [hparts.body_eq, List.length_append, List.length_cons, List.length_append]
      omega
    have hwhere : ∀ condition, whereEdits l (k + (front.length + 1 + items.length)) after condition =
        whereEdits m (front.length + 1 + items.length) after condition :=
      whereEdits_shift h (by omega) (by omega)
    rw [bodyEdit_of_parts catalog options l k hparts, bodyEdit_of_parts catalog options m 0 hparts,
      Nat.add_assoc k, References.parse_shift, bind_map_left, Nat.zero_add]
    split
    · cases hparse : References.parse Reading.maxNesting options.maxJoins (front.length + 1) items
          after.head? with
      | error e => rfl
      | ok r =>
          obtain ⟨head, rest, hitems, hspans⟩ := References.parse_spans hparse
          have hedits := References.edits_shift h hspans (Nat.succ_pos _)
            (by rw [← hitems]; omega) options.column (r.plan catalog)
          change ((r.shift k).edits l _ ((r.shift k).plan catalog) >>= _) =
            (r.edits m _ (r.plan catalog) >>= _)
          simp only [References.shift_plan, hedits, Nat.add_assoc k, hwhere]
    · rfl

theorem bodyEdit_behind (front : Text) (i : Item) (items : List Item) :
    bodyEdit catalog options m 0 (i.behind front :: items) =
      bodyEdit catalog options m 0 (i :: items) := by
  have hfrom : startsWithWords ["FROM"] (i.behind front :: items) =
      startsWithWords ["FROM"] (i :: items) := by
    simp [startsWithWords]
  simp only [bodyEdit, breakAt, hfrom, Item.depthAfter_behind]
  split <;> rfl

theorem bodyEdit_eq_only {pre body post : List Item} (h : l.HasBody pre body post) :
    bodyEdit catalog options l pre.length body =
      (l.only ⟨pre.length, pre.length + body.length⟩).filterEdit catalog options := by
  have havoids := h.avoids
  cases body with
  | nil =>
      have hin : l.itemsIn pre.length (pre.length + ([] : List Item).length) = [] := by
        simp [Level.itemsIn]
      simp only [Level.only, hin]
      rw [Level.filterEdit_of_avoids catalog options (by trivial)]
      rfl
  | cons i items =>
      rw [bodyEdit_shift catalog options (Level.shows_only h.items_eq), Level.only_eq h.items_eq,
        Level.filterEdit_of_avoids catalog options ((avoids_behind _).2 havoids), bodyEdit_behind]

end Body

end SoftDelete
