import Mathlib.Data.List.DropRight
import SoftDelete.Proofs.Join.Placement

namespace SoftDelete

variable {α : Type}

namespace Row

def cross (front back : Multiset (Row α)) : Multiset (Row α) :=
  front.bind fun row => back.map (row ++ ·)

def blank (width : Nat) : Row α :=
  List.replicate width none

def behind (width : Nat) (p : Row α → Bool) (row : Row α) : Bool :=
  p (blank width ++ row)

theorem mem_cross {front back : Multiset (Row α)} {row : Row α} :
    row ∈ cross front back ↔ ∃ f ∈ front, ∃ b ∈ back, row = f ++ b := by
  simp [cross, eq_comm]

@[simp] theorem cross_unit (front : Multiset (Row α)) : cross front {[]} = front := by
  have h := Multiset.bind_singleton front fun row => row
  simpa [cross] using h

@[simp] theorem unit_cross (back : Multiset (Row α)) : cross {[]} back = back := by
  simp [cross]

theorem cross_assoc (a b c : Multiset (Row α)) : cross (cross a b) c = cross a (cross b c) := by
  simp [cross, Multiset.bind_assoc, Multiset.bind_map, Multiset.map_bind]

theorem singleton_cross (row : Row α) (back : Multiset (Row α)) :
    cross {row} back = back.map (row ++ ·) := by
  simp [cross]

theorem singleton_cross_injective (row : Row α) {a b : Multiset (Row α)}
    (h : cross {row} a = cross {row} b) : a = b := by
  rw [singleton_cross, singleton_cross] at h
  exact Multiset.map_injective (List.append_right_injective row) h

theorem exists_record {records : Multiset α} {row : Row α}
    (h : row ∈ records.map fun record => [some record]) : ∃ record, row = [some record] := by
  obtain ⟨record, -, rfl⟩ := Multiset.mem_map.1 h
  exact ⟨record, rfl⟩

theorem keep_cross {front back : Multiset (Row α)} {p q : Row α → Bool}
    (h : ∀ f ∈ front, ∀ b ∈ back, p (f ++ b) = q b) :
    keep p (cross front back) = cross front (keep q back) := by
  rw [cross, keep_bind]
  apply Multiset.bind_congr
  intro f hf
  rw [keep, Multiset.filter_map]
  congr 1
  exact Multiset.filter_congr fun b hb => by simp [h f hf b hb]

theorem length_of_mem_cross {front back : Multiset (Row α)} {m n : Nat}
    (hfront : ∀ row ∈ front, row.length = m) (hback : ∀ row ∈ back, row.length = n) :
    ∀ row ∈ cross front back, row.length = m + n := by
  intro row hrow
  obtain ⟨f, hf, b, hb, rfl⟩ := mem_cross.1 hrow
  rw [List.length_append, hfront f hf, hback b hb]

theorem map_orLone {lone : Row α} {rows : Multiset (Row α)} (f : Row α → Row α) :
    (orLone lone rows).map f = orLone (f lone) (rows.map f) := by
  unfold orLone
  rw [Multiset.card_map]
  split <;> simp

theorem map_paired {on : Row α → Bool} {front row : Row α} {records : Multiset α}
    {p : Row α → Bool}
    (h : ∀ record, on (front ++ (row ++ [some record])) = p (row ++ [some record])) :
    paired on (front ++ row) records = (paired p row records).map (front ++ ·) := by
  simp only [paired, keep, Multiset.filter_map, Multiset.map_map]
  congr 1
  · funext record
    simp
  · exact Multiset.filter_congr fun record _ => by simp [h record]

end Row

open Row

namespace Join.Shape

variable {on p : Row α → Bool} {front group : Multiset (Row α)} {right : Multiset α}

theorem rows_left_cross {width n : Nat}
    (h : ∀ f ∈ front, ∀ g ∈ group, ∀ record,
      on (f ++ (g ++ [some record])) = p (g ++ [some record])) :
    rows on (width + n) (cross front group) right .left =
      cross front (rows p n group right .left) := by
  simp only [rows, cross, Multiset.bind_assoc, Multiset.bind_map, Multiset.map_bind, map_orLone]
  refine Multiset.bind_congr fun f hf => Multiset.bind_congr fun g hg => ?_
  rw [map_paired (h f hf g hg), List.append_assoc]

theorem rows_inner_cross {width n : Nat}
    (h : ∀ f ∈ front, ∀ g ∈ group, ∀ record,
      on (f ++ (g ++ [some record])) = p (g ++ [some record])) :
    rows on (width + n) (cross front group) right .inner =
      cross front (rows p n group right .inner) := by
  simp only [rows, cross, Multiset.bind_assoc, Multiset.bind_map, Multiset.map_bind]
  exact Multiset.bind_congr fun f hf => Multiset.bind_congr fun g hg => map_paired (h f hf g hg)

theorem rows_right_cross {width n : Nat} :
    rows on (width + n) (cross {blank width} group) right .right =
      cross {blank width} (rows (behind width on) n group right .right) := by
  simp only [rows, singleton_cross, Multiset.map_bind, map_orLone]
  refine Multiset.bind_congr fun record _ => ?_
  congr 1
  · rw [blank, ← List.append_assoc, List.replicate_append_replicate]
  · simp only [keep, Multiset.map_map, Multiset.filter_map, Function.comp_def, List.append_assoc]
    rfl

theorem rows_cross {shape : Join.Shape} {width n total : Nat} (htotal : width + n = total)
    (h : ∀ f ∈ front, ∀ g ∈ group, ∀ record,
      on (f ++ (g ++ [some record])) = behind width on (g ++ [some record]))
    (hright : shape = .right → front = {blank width}) :
    rows on total (cross front group) right shape =
      cross front (rows (behind width on) n group right shape) := by
  subst htotal
  cases shape with
  | inner => exact rows_inner_cross h
  | left => exact rows_left_cross h
  | right =>
      rw [hright rfl]
      exact rows_right_cross

theorem rows_inner_record {width : Nat} {left : Multiset (Row α)}
    (h : ∀ row ∈ left, ∀ record,
      on (row ++ [some record]) = behind width on [some record]) :
    rows on width left right .inner =
      cross left (keep (behind width on) (right.map fun record => [some record])) := by
  have hrows : rows on width (cross left {[]}) right .inner =
      cross left (rows (behind width on) 0 {[]} right .inner) :=
    rows_cross (Nat.add_zero width) (by simpa using h) nofun
  rw [cross_unit] at hrows
  rw [hrows]
  simp [rows, paired]

end Join.Shape

structure Listing (α : Type) where
  number : Nat
  start : Nat
  front : Multiset (Row α)
  group : Multiset (Row α)

namespace Listing

/-- A comma opens a group, whose records its condition, if it has one, selects. Any other join belongs to
the last group, whose entries alone are known to its condition. -/
def join (db : Database α) (on : Nat → Row α → Bool) (s : Listing α) (j : Join) : Listing α :=
  let records := j.table.records db (s.number + 1)
  let on := on s.number
  if j.kind = .comma then
    ⟨s.number + 1, s.number + 1, cross s.front s.group,
      keep (behind (s.number + 1) on) (records.map fun record => [some record])⟩
  else
    ⟨s.number + 1, s.start, s.front,
      j.kind.shape.rows (behind s.start on) (s.number + 1 - s.start) s.group records⟩

def rows (s : Listing α) : Multiset (Row α) :=
  cross s.front s.group

end Listing

namespace Listing

variable {db : Database α} {on : Nat → Row α → Bool} {s : Listing α} {j : Join}

theorem join_of_comma (h : j.kind = .comma) :
    s.join db on j = ⟨s.number + 1, s.number + 1, cross s.front s.group,
      keep (behind (s.number + 1) (on s.number))
        ((j.table.records db (s.number + 1)).map fun record => [some record])⟩ :=
  if_pos h

theorem join_of_ne_comma (h : j.kind ≠ .comma) :
    s.join db on j = ⟨s.number + 1, s.start, s.front,
      j.kind.shape.rows (behind s.start (on s.number)) (s.number + 1 - s.start) s.group
        (j.table.records db (s.number + 1))⟩ :=
  if_neg h

end Listing

namespace References

def groupStart (r : References) (k : Nat) : Nat :=
  ((r.joins.take k).rdropWhile fun j => j.kind ≠ .comma).length

def listingTo (db : Database α) (on : Nat → Row α → Bool) (r : References) (k : Nat) :
    Listing α :=
  (r.joins.take k).foldl (Listing.join db on)
    ⟨0, 0, {[]}, (r.first.records db 0).map fun record => [some record]⟩

def listRows (db : Database α) (on : Nat → Row α → Bool) (r : References) : Multiset (Row α) :=
  (r.listingTo db on r.joins.length).rows

def OwnGroups (r : References) (on : Nat → Row α → Bool) : Prop :=
  ∀ number < r.joins.length, ∀ row row' : Row α, row.length = number + 2 →
    row'.length = number + 2 →
      row.drop (r.groupStart (number + 1)) = row'.drop (r.groupStart (number + 1)) →
        on number row = on number row'

variable {r : References} {k : Nat} {j : Join} {on : Nat → Row α → Bool}

theorem OwnGroups.behind (h : r.OwnGroups on) (hk : k < r.joins.length) {f g : Row α}
    {entry : Option α} (hf : f.length = r.groupStart (k + 1))
    (hlength : f.length + g.length = k + 1) :
    on k (f ++ (g ++ [entry])) = Row.behind (r.groupStart (k + 1)) (on k) (g ++ [entry]) := by
  apply h k hk
  · simp [← Nat.add_assoc, hlength]
  · simp [blank, ← hf, ← Nat.add_assoc, hlength]
  · have hblank : (blank (r.groupStart (k + 1)) : Row α).length = r.groupStart (k + 1) :=
      List.length_replicate
    rw [List.drop_left' hf, List.drop_left' hblank]

theorem groupStart_succ (h : r.joins[k]? = some j) :
    r.groupStart (k + 1) = if j.kind = .comma then k + 1 else r.groupStart k := by
  have hk : k ≤ r.joins.length := (List.getElem?_eq_some_iff.1 h).1.le
  rw [groupStart, groupStart, List.take_add_one, h, Option.toList_some, List.rdropWhile_concat]
  by_cases hkind : j.kind = .comma
  · simp [hkind, hk]
  · simp [hkind]

theorem groupStart_le (r : References) (k : Nat) : r.groupStart k ≤ k := by
  have h := (List.rdropWhile_prefix (fun j : Join => j.kind ≠ .comma) (r.joins.take k)).length_le
  exact h.trans (List.length_take_le k r.joins)

theorem listingTo_succ (h : r.joins[k]? = some j) (db : Database α)
    (on : Nat → Row α → Bool) :
    r.listingTo db on (k + 1) = (r.listingTo db on k).join db on j := by
  simp only [listingTo, List.take_add_one, h, Option.toList_some, List.foldl_append,
    List.foldl_cons, List.foldl_nil]

theorem listingTo_place (r : References) (db : Database α) (on : Nat → Row α → Bool)
    (hk : k ≤ r.joins.length) :
    (r.listingTo db on k).number = k ∧ (r.listingTo db on k).start = r.groupStart k := by
  induction k with
  | zero => exact ⟨rfl, rfl⟩
  | succ k ih =>
      obtain ⟨j, hj⟩ : ∃ j, r.joins[k]? = some j := ⟨_, List.getElem?_eq_getElem hk⟩
      obtain ⟨hnumber, hstart⟩ := ih (Nat.le_of_succ_le hk)
      rw [listingTo_succ hj, groupStart_succ hj, Listing.join]
      split
      · exact ⟨congrArg (· + 1) hnumber, congrArg (· + 1) hnumber⟩
      · exact ⟨congrArg (· + 1) hnumber, hstart⟩

end References

end SoftDelete
