import Mathlib.Data.Multiset.Bind
import SoftDelete.Join.Carry

namespace SoftDelete

abbrev Row (α : Type) := List (Option α)

namespace Row

variable {α : Type}

def keep (p : Row α → Bool) (rows : Multiset (Row α)) : Multiset (Row α) :=
  rows.filter fun row => p row = true

def orLone (lone : Row α) (rows : Multiset (Row α)) : Multiset (Row α) :=
  if rows.card = 0 then {lone} else rows

def paired (on : Row α → Bool) (row : Row α) (records : Multiset α) : Multiset (Row α) :=
  keep on (records.map fun record => row ++ [some record])

theorem keep_bind {β : Type} (p : Row α → Bool) (xs : Multiset β) (f : β → Multiset (Row α)) :
    keep p (xs.bind f) = xs.bind fun x => keep p (f x) :=
  Multiset.filter_bind xs f _

theorem keep_true {p : Row α → Bool} {rows : Multiset (Row α)} (h : ∀ row ∈ rows, p row = true) :
    keep p rows = rows :=
  Multiset.filter_eq_self.2 h

theorem keep_false {p : Row α → Bool} {rows : Multiset (Row α)}
    (h : ∀ row ∈ rows, p row = false) : keep p rows = 0 :=
  Multiset.filter_eq_nil.2 fun row hrow => by simp [h row hrow]

theorem mem_paired {on : Row α → Bool} {row r : Row α} {records : Multiset α}
    (h : r ∈ paired on row records) : ∃ record ∈ records, r = row ++ [some record] := by
  simp only [paired, keep, Multiset.mem_filter, Multiset.mem_map] at h
  obtain ⟨⟨record, hmem, rfl⟩, _⟩ := h
  exact ⟨record, hmem, rfl⟩

theorem paired_filter {on on' : Row α → Bool} {row : Row α} {records : Multiset α}
    {q : α → Bool} (h : ∀ record, on' (row ++ [some record]) = (q record && on (row ++ [some record]))) :
    paired on' row records = paired on row (records.filter fun record => q record = true) := by
  simp only [paired, keep, Multiset.filter_map, Multiset.filter_filter]
  congr 1
  apply Multiset.filter_congr
  intro record _
  simp [h record, and_comm]

theorem paired_none {on : Row α → Bool} {row : Row α} {records : Multiset α}
    (h : ∀ record, on (row ++ [some record]) = false) : paired on row records = 0 := by
  apply keep_false
  intro r hr
  obtain ⟨record, _, rfl⟩ := Multiset.mem_map.1 hr
  exact h record

theorem mem_orLone {lone row : Row α} {rows : Multiset (Row α)} (h : row ∈ orLone lone rows) :
    row = lone ∨ row ∈ rows := by
  unfold orLone at h
  split at h
  · exact .inl (Multiset.mem_singleton.1 h)
  · exact .inr h

end Row

namespace Join.Shape

open Row

variable {α : Type}

def rows (on : Row α → Bool) (width : Nat) (left : Multiset (Row α)) (right : Multiset α) :
    Join.Shape → Multiset (Row α)
  | .inner => left.bind fun row => paired on row right
  | .left => left.bind fun row => orLone (row ++ [none]) (paired on row right)
  | .right => right.bind fun record =>
      orLone (List.replicate width none ++ [some record])
        (keep on (left.map fun row => row ++ [some record]))

variable {on on' P p : Row α → Bool} {q : α → Bool} {width : Nat} {left : Multiset (Row α)}
  {right : Multiset α}

theorem rows_inner (h : ∀ row ∈ left, ∀ record,
      on' (row ++ [some record]) = (p row && (q record && on (row ++ [some record])))) :
    rows on' width left right .inner =
      rows on width (keep p left) (right.filter fun record => q record = true) .inner := by
  simp only [rows, keep, Multiset.bind_filter]
  apply Multiset.bind_congr
  intro row hrow
  cases hp : p row with
  | true =>
      have h' : ∀ record, on' (row ++ [some record]) =
          (q record && on (row ++ [some record])) := fun record => by simp [h row hrow, hp]
      simpa using paired_filter h'
  | false =>
      have h' : ∀ record, on' (row ++ [some record]) = false :=
        fun record => by simp [h row hrow, hp]
      simpa using paired_none h'

theorem rows_left
    (h : ∀ row ∈ left, ∀ record,
      on' (row ++ [some record]) = (q record && on (row ++ [some record])))
    (hP : ∀ row ∈ left, ∀ entry, P (row ++ [entry]) = p row) :
    keep P (rows on' width left right .left) =
      rows on width (keep p left) (right.filter fun record => q record = true) .left := by
  simp only [rows, keep_bind]
  rw [keep, Multiset.bind_filter]
  apply Multiset.bind_congr
  intro row hrow
  have hsame : ∀ r ∈ orLone (row ++ [none]) (paired on' row right), P r = p row := by
    intro r hr
    rcases mem_orLone hr with rfl | hr
    · exact hP row hrow none
    · obtain ⟨record, _, rfl⟩ := mem_paired hr
      exact hP row hrow (some record)
  cases hp : p row with
  | true =>
      rw [keep_true fun r hr => (hsame r hr).trans hp, paired_filter (h row hrow)]
      simp
  | false =>
      rw [keep_false fun r hr => (hsame r hr).trans hp]
      simp

theorem rows_right
    (h : ∀ row ∈ left, ∀ record,
      on' (row ++ [some record]) = (p row && on (row ++ [some record])))
    (hP : ∀ row ∈ left, ∀ record, P (row ++ [some record]) = q record)
    (hlone : ∀ record, P (List.replicate width none ++ [some record]) = q record) :
    keep P (rows on' width left right .right) =
      rows on width (keep p left) (right.filter fun record => q record = true) .right := by
  simp only [rows, keep_bind, Multiset.bind_filter]
  apply Multiset.bind_congr
  intro record _
  have hmatched : keep on' (left.map fun row => row ++ [some record]) =
      keep on ((keep p left).map fun row => row ++ [some record]) := by
    simp only [keep, Multiset.filter_map, Multiset.filter_filter]
    congr 1
    apply Multiset.filter_congr
    intro row hrow
    simp [h row hrow record, and_comm]
  have hsame : ∀ r ∈ orLone (List.replicate width none ++ [some record])
      (keep on' (left.map fun row => row ++ [some record])), P r = q record := by
    intro r hr
    rcases mem_orLone hr with rfl | hr
    · exact hlone record
    · obtain ⟨row, hrow, rfl⟩ := Multiset.mem_map.1 (Multiset.mem_of_mem_filter hr)
      exact hP row hrow record
  cases hq : q record with
  | true =>
      rw [keep_true fun r hr => (hsame r hr).trans hq, hmatched]
      simp
  | false =>
      rw [keep_false fun r hr => (hsame r hr).trans hq]
      simp

theorem length_of_mem_rows {shape : Join.Shape} {r : Row α}
    (hleft : ∀ row ∈ left, row.length = width) (hr : r ∈ rows on width left right shape) :
    r.length = width + 1 := by
  cases shape with
  | inner =>
      obtain ⟨row, hrow, hr⟩ := Multiset.mem_bind.1 hr
      obtain ⟨record, _, rfl⟩ := mem_paired hr
      simp [hleft row hrow]
  | left =>
      obtain ⟨row, hrow, hr⟩ := Multiset.mem_bind.1 hr
      rcases mem_orLone hr with rfl | hr
      · simp [hleft row hrow]
      · obtain ⟨record, _, rfl⟩ := mem_paired hr
        simp [hleft row hrow]
  | right =>
      obtain ⟨record, _, hr⟩ := Multiset.mem_bind.1 hr
      rcases mem_orLone hr with rfl | hr
      · simp
      · obtain ⟨row, hrow, rfl⟩ := Multiset.mem_map.1 (Multiset.mem_of_mem_filter hr)
        simp [hleft row hrow]

end Join.Shape

end SoftDelete
