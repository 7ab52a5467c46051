import Mathlib.Data.List.Basic
import SoftDelete.Proofs.Select.Body

namespace SoftDelete

def rangesBetween (start stop : Nat) : List Nat → List ItemRange
  | [] => [⟨start, stop⟩]
  | cut :: cuts => ⟨start, cut⟩ :: rangesBetween (cut + 1) stop cuts

def separatesBodies (item : Item × Nat) : Bool :=
  item.2 == 0 && item.1.spells "UNION"

namespace Level

def unions (l : Level) : List Nat :=
  (l.items.zip l.depths).findIdxs separatesBodies

def bodyRanges (l : Level) : List ItemRange :=
  rangesBetween 0 l.items.length l.unions

end Level

def LevelEdit.concat (parts : List LevelEdit) : LevelEdit :=
  ⟨parts.flatMap LevelEdit.edits, parts.flatMap LevelEdit.constrained⟩

theorem depthsFrom_append (depth : Nat) (front rest : List Item) :
    depthsFrom depth (front ++ rest) =
      depthsFrom depth front ++ depthsFrom (depthOver depth front) rest := by
  induction front generalizing depth with
  | nil => rfl
  | cons i front ih => exact congrArg _ (ih (i.depthAfter depth))

section Unions

variable {depth : Nat} {items front rest : List Item}

theorem findIdxs_of_avoids (h : Avoids "UNION" depth items) (number : Nat) :
    (items.zip (depthsFrom depth items)).findIdxs separatesBodies number = [] := by
  induction items generalizing depth number with
  | nil => rfl
  | cons i items ih =>
      have hi : separatesBodies (i, min depth (i.depthAfter depth)) = false := by
        cases hspells : i.spells "UNION" with
        | false => simp [separatesBodies, hspells]
        | true =>
            have hdepth : depth ≠ 0 := fun hzero => by simp [h.1 hzero] at hspells
            simp [separatesBodies, Item.depthAfter_of_spells hspells, hdepth]
      rw [depthsFrom, List.zip_cons_cons, List.findIdxs_cons, hi]
      exact ih h.2 (number + 1)

theorem findIdxs_union {i : Item} (hfront : Avoids "UNION" 0 front) (hend : depthOver 0 front = 0)
    (hi : i.spells "UNION" = true) (number : Nat) :
    ((front ++ i :: rest).zip (depthsFrom 0 (front ++ i :: rest))).findIdxs separatesBodies number =
      (number + front.length) ::
        (rest.zip (depthsFrom 0 rest)).findIdxs separatesBodies (number + front.length + 1) := by
  have hdepth : i.depthAfter 0 = 0 := Item.depthAfter_of_spells hi 0
  rw [depthsFrom_append, hend, List.zip_append (by rw [depthsFrom_length]), List.findIdxs_append,
    findIdxs_of_avoids hfront, List.nil_append, List.length_zip, depthsFrom_length, Nat.min_self,
    depthsFrom, hdepth, List.zip_cons_cons, List.findIdxs_cons, if_pos (by simpa [separatesBodies])]

end Unions

structure Level.HasBody (l : Level) (pre body post : List Item) : Prop where
  items_eq : l.items = pre ++ (body ++ post)
  closed : depthOver 0 pre = 0
  avoids : Avoids "UNION" 0 body
  ends : ∀ i ∈ post.head?, i.spells "UNION" = true

section Bodies

variable (catalog : Catalog) (options : Options) {l : Level}

theorem bodyEdits_single (start : Nat) (body : List Item) :
    bodyEdits catalog options l start [body] = bodyEdit catalog options l start body := by
  rw [bodyEdits, bodyEdits]
  cases bodyEdit catalog options l start body with
  | error e => rfl
  | ok edit => simp [bind, Except.bind]

theorem Level.filterEdit_of_avoids (h : Avoids "UNION" 0 l.items) :
    l.filterEdit catalog options = bodyEdit catalog options l 0 l.items := by
  rw [filterEdit, bodies_eq, breakAt_of_avoids h]
  exact bodyEdits_single catalog options 0 l.items

variable {edits : ItemRange → Except Failure LevelEdit}

theorem bodyEdits_eq_mapM
    (hedits : ∀ {pre body post}, l.HasBody pre body post →
      bodyEdit catalog options l pre.length body = edits ⟨pre.length, pre.length + body.length⟩)
    {pre items : List Item} (hitems : l.items = pre ++ items) (hclosed : depthOver 0 pre = 0) :
    bodyEdits catalog options l pre.length (bodies items) =
      LevelEdit.concat <$> (rangesBetween pre.length l.items.length
        ((items.zip (depthsFrom 0 items)).findIdxs separatesBodies pre.length)).mapM edits := by
  fun_induction bodies items generalizing pre with
  | case1 items body hbreak =>
      obtain rfl := eq_of_breakAt hbreak
      have havoids := avoids_of_breakAt hbreak
      have hhas : l.HasBody pre items [] := ⟨by simpa using hitems, hclosed, havoids, nofun⟩
      have hstop : l.items.length = pre.length + items.length := by simp [hitems]
      rw [bodyEdits_single, hedits hhas, findIdxs_of_avoids havoids, rangesBetween, hstop,
        List.mapM_cons, List.mapM_nil]
      cases edits ⟨pre.length, pre.length + items.length⟩ with
      | error e => rfl
      | ok edit => simp [bind, Except.bind, pure, Except.pure, LevelEdit.concat]
  | case2 items body u rest hbreak ih =>
      have hsplit := eq_append_of_breakAt hbreak
      have hu := spells_of_breakAt hbreak
      have havoids := avoids_of_breakAt hbreak
      have hend := depthOver_breakAt hbreak
      have hhas : l.HasBody pre body (u :: rest) :=
        ⟨by rw [hitems, hsplit], hclosed, havoids, by simpa using hu⟩
      have hclosed' : depthOver 0 (pre ++ (body ++ [u])) = 0 := by
        rw [depthOver_append, hclosed]
        exact depthOver_behind hu hend []
      have hlater := ih (by simp [hitems, hsplit]) hclosed'
      simp only [List.length_append, List.length_singleton, ← Nat.add_assoc] at hlater
      rw [hsplit, findIdxs_union havoids hend hu, rangesBetween, List.mapM_cons, bodyEdits,
        hedits hhas, hlater]
      simp only [map_bind, bind_map_left]
      exact bind_congr fun edit => bind_congr fun parts => rfl

theorem Level.filterEdit_eq_mapM
    (hedits : ∀ {pre body post}, l.HasBody pre body post →
      bodyEdit catalog options l pre.length body = edits ⟨pre.length, pre.length + body.length⟩) :
    l.filterEdit catalog options = LevelEdit.concat <$> l.bodyRanges.mapM edits :=
  have hclosed : depthOver 0 [] = 0 := rfl
  bodyEdits_eq_mapM catalog options hedits l.items.nil_append.symm hclosed

end Bodies

end SoftDelete
