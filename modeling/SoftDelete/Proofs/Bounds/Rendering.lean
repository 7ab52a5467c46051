import SoftDelete.Proofs.Sql.Rendering

namespace SoftDelete

namespace Text

def isBoundary (s : Text) (n : Nat) : Bool :=
  byteSize (takeBytes n s) == n

def slice? (s : Text) (start stop : Nat) : Option Text :=
  if start ≤ stop ∧ s.isBoundary start = true ∧ s.isBoundary stop = true then
    some (s.slice start stop)
  else none

theorem isBoundary_byteSize (front rest : Text) :
    isBoundary (front ++ rest) (byteSize front) = true := by
  simp [isBoundary]

theorem le_of_isBoundary {s : Text} {n : Nat} (h : s.isBoundary n = true) : n ≤ byteSize s := by
  have hsplit := congrArg byteSize (takeBytes_append_dropBytes n s)
  rw [byteSize_append, eq_of_beq h] at hsplit
  exact hsplit ▸ Nat.le_add_right _ _

theorem slice?_eq {s : Text} {start stop : Nat} (hle : start ≤ stop)
    (hstart : s.isBoundary start = true) (hstop : s.isBoundary stop = true) : s.slice? start stop = some (s.slice start stop) :=
  if_pos ⟨hle, hstart, hstop⟩

theorem slice?_append (a b c : Text) :
    slice? (a ++ (b ++ c)) (byteSize a) (byteSize a + byteSize b) = some b := by
  have hstop := isBoundary_byteSize (a ++ b) c
  rw [byteSize_append, List.append_assoc] at hstop
  rw [slice?_eq (Nat.le_add_right ..) (isBoundary_byteSize a _) hstop, slice_append]

end Text

def outputWithin? (source : Text) (stop : Nat) (start : Nat) : List Placed → Option Text
  | [] => source.slice? start stop
  | p :: rest =>
      if start ≤ p.start ∧ p.stop ≤ stop then do
        let front ← source.slice? start p.start
        let later ← outputWithin? source stop p.stop rest
        some (front ++ '(' :: (p.body ++ ')' :: later))
      else outputWithin? source stop start rest

structure Placed.Fits (source : Text) (p : Placed) : Prop where
  ordered : p.start ≤ p.stop
  starts : source.isBoundary p.start = true
  stops : source.isBoundary p.stop = true

theorem outputWithin?_eq {source : Text} {stop start : Nat} {placed : List Placed}
    (hplaced : ∀ p ∈ placed, p.Fits source) (hle : start ≤ stop)
    (hstart : source.isBoundary start = true) (hstop : source.isBoundary stop = true) :
    outputWithin? source stop start placed = some (outputWithin source stop start placed) := by
  induction placed generalizing start with
  | nil => exact Text.slice?_eq hle hstart hstop
  | cons p placed ih =>
      have hp := hplaced p (by simp)
      have hlater := fun q hq => hplaced q (List.mem_cons_of_mem p hq)
      rw [outputWithin?, outputWithin]
      split
      · rename_i hinside
        rw [Text.slice?_eq hinside.1 hstart hp.starts, ih hlater hinside.2 hp.stops]
        rfl
      · exact ih hlater hle hstart

theorem fits_of_mem_placedFrom {front rest : Text} {items : List Item} {p : Placed}
    (h : p ∈ placedFrom (Text.byteSize front) items) :
    p.Fits (front ++ (items.flatMap Item.source ++ rest)) := by
  induction items generalizing front with
  | nil => cases h
  | cons i items ih =>
      have hlater : p ∈ placedFrom (Text.byteSize front + Text.byteSize i.gap + Text.byteSize i.text)
          items → p.Fits (front ++ ((i :: items).flatMap Item.source ++ rest)) := by
        intro h
        have hfits := @ih (front ++ i.source)
        rw [Item.source, Text.byteSize_append, Text.byteSize_append, ← Nat.add_assoc] at hfits
        simpa [Item.source] using hfits h
      cases i with
      | token t => exact hlater h
      | subselect gap text body =>
          rcases List.mem_cons.1 h with rfl | h
          · have hstart := Text.isBoundary_byteSize (front ++ gap)
              (text ++ (items.flatMap Item.source ++ rest))
            have hstop := Text.isBoundary_byteSize (front ++ gap ++ text)
              (items.flatMap Item.source ++ rest)
            simp only [Text.byteSize_append, List.append_assoc] at hstart hstop
            exact ⟨Nat.le_add_right _ _,
              by simpa [Item.source, Item.gap, Item.text] using hstart,
              by simpa [Item.source, Item.gap, Item.text, Nat.add_assoc] using hstop⟩
          · exact hlater h

namespace Level

variable {l : Level} {i : Item} {pre mid post : List Item}

def text? (l : Level) (n : Nat) : Option Text :=
  if n < l.items.length then l.source.slice? (l.startOf n) (l.stopOf (n + 1)) else none

def span? (l : Level) (first stop : Nat) : Option (Nat × Nat) :=
  if first < stop ∧ stop ≤ l.items.length then some (l.startOf first, l.stopOf stop) else none

def outputBetween? (l : Level) (start stop : Nat) : Option Text :=
  outputWithin? l.source stop start (placedFrom 0 l.items)

def render? (l : Level) (first stop : Nat) : Option Text := do
  let bytes ← l.span? first stop
  l.outputBetween? bytes.1 bytes.2

def outputFrom? (l : Level) (start : Nat) : List Edit → Option Text
  | [] => l.outputBetween? start (Text.byteSize l.source)
  | e :: edits => do
      let front ← l.outputBetween? start e.start
      let later ← l.outputFrom? e.stop edits
      some (front ++ (e.text ++ later))

def outputWith? (l : Level) (edits : List Edit) : Option Text :=
  l.outputFrom? 0 (edits.mergeSort Edit.le)

theorem exists_split {n : Nat} (h : l.items[n]? = some i) :
    ∃ pre post, l.items = pre ++ i :: post ∧ pre.length = n := by
  obtain ⟨hn, hi⟩ := List.getElem?_eq_some_iff.1 h
  refine ⟨l.items.take n, l.items.drop (n + 1), ?_, List.length_take_of_le (Nat.le_of_lt hn)⟩
  rw [← hi, ← List.drop_eq_getElem_cons hn, List.take_append_drop]

theorem source_split (h : l.items = pre ++ i :: post) :
    l.source = l.before pre.length ++ (i.text ++ (post.flatMap Item.source ++ l.tail)) := by
  simp [source, before, upTo, h, Item.source]

theorem upTo_succ (h : l.items = pre ++ i :: post) :
    l.upTo (pre.length + 1) = l.before pre.length ++ i.text := by
  have hsplit : l.items = pre ++ [i] ++ post := by simp [h]
  have htake : l.items.take (pre.length + 1) = pre ++ [i] :=
    hsplit ▸ List.take_left' (by simp)
  rw [upTo, htake]
  simp [before, upTo, h, Item.source]

theorem isBoundary_stopOf (l : Level) (n : Nat) : l.source.isBoundary (l.stopOf n) = true := by
  have hsplit : l.source = l.upTo n ++ ((l.items.drop n).flatMap Item.source ++ l.tail) := by
    rw [source, upTo, ← List.append_assoc, ← List.flatMap_append, List.take_append_drop]
  rw [hsplit, stopOf]
  exact Text.isBoundary_byteSize _ _

theorem isBoundary_startOf {n : Nat} (h : n < l.items.length) :
    l.source.isBoundary (l.startOf n) = true := by
  obtain ⟨pre, post, hsplit, rfl⟩ := exists_split (List.getElem?_eq_getElem h)
  rw [source_split hsplit, startOf]
  exact Text.isBoundary_byteSize _ _

theorem text?_eq {n : Nat} (h : l.items[n]? = some i) : l.text? n = some i.text := by
  obtain ⟨pre, post, hsplit, rfl⟩ := exists_split h
  have hn : pre.length < l.items.length := by simp [hsplit]
  rw [text?, if_pos hn, stopOf, upTo_succ hsplit, Text.byteSize_append, startOf, source_split hsplit]
  exact Text.slice?_append _ _ _

theorem slice?_before {n : Nat} (h : n < l.items.length) :
    l.source.slice? 0 (l.startOf n) = some (l.before n) := by
  obtain ⟨pre, post, hsplit, rfl⟩ := exists_split (List.getElem?_eq_getElem h)
  have hslice := Text.slice?_append [] (l.before pre.length)
    (l.items[pre.length].text ++ (post.flatMap Item.source ++ l.tail))
  rw [← source_split hsplit] at hslice
  simpa [startOf] using hslice

theorem stopOf_mono {m n : Nat} (h : m ≤ n) : l.stopOf m ≤ l.stopOf n := by
  have hsplit : l.upTo n = l.upTo m ++ ((l.items.drop m).take (n - m)).flatMap Item.source := by
    rw [upTo, upTo, ← List.flatMap_append, ← List.take_add, Nat.add_sub_cancel' h]
  rw [stopOf, stopOf, hsplit, Text.byteSize_append]
  exact Nat.le_add_right _ _

theorem stopOf_le_startOf (l : Level) (n : Nat) : l.stopOf n ≤ l.startOf n := by
  rw [stopOf, startOf, before, Text.byteSize_append]
  exact Nat.le_add_right _ _

theorem startOf_le_stopOf {m n : Nat} (hm : m < l.items.length) (h : m < n) :
    l.startOf m ≤ l.stopOf n := by
  obtain ⟨pre, post, hsplit, rfl⟩ := exists_split (List.getElem?_eq_getElem hm)
  refine Nat.le_trans ?_ (stopOf_mono h)
  rw [stopOf, upTo_succ hsplit, Text.byteSize_append, startOf]
  exact Nat.le_add_right _ _

theorem span?_eq {first stop : Nat} (h : first < stop) (hstop : stop ≤ l.items.length) :
    l.span? first stop = some (l.startOf first, l.stopOf stop) :=
  if_pos ⟨h, hstop⟩

theorem outputBetween?_eq {start stop : Nat} (hle : start ≤ stop)
    (hstart : l.source.isBoundary start = true) (hstop : l.source.isBoundary stop = true) :
    l.outputBetween? start stop = some (l.outputBetween start stop) :=
  outputWithin?_eq (fun _ hp => @fits_of_mem_placedFrom [] _ _ _ hp) hle hstart hstop

theorem render?_eq (hsolid : ∀ i ∈ l.items, i.text ≠ []) {first stop : Nat} (h : first < stop)
    (hstop : stop ≤ l.items.length) :
    l.render? first stop = some (outputOf (l.itemsIn first stop)) := by
  have hfirst : first < l.items.length := Nat.lt_of_lt_of_le h hstop
  obtain ⟨pre, post, hsplit, rfl⟩ := exists_split (List.getElem?_eq_getElem hfirst)
  generalize l.items[pre.length] = i at hsplit
  obtain ⟨used, rest, rfl, hused⟩ :
      ∃ used rest, post = used ++ rest ∧ pre.length + (i :: used).length = stop := by
    have hlen : l.items.length = pre.length + 1 + post.length := by simp [hsplit]; omega
    refine ⟨post.take (stop - pre.length - 1), post.drop (stop - pre.length - 1),
      (List.take_append_drop ..).symm, ?_⟩
    rw [List.length_cons, List.length_take_of_le (by omega)]
    omega
  have hin : l.itemsIn pre.length stop = i :: used :=
    hused ▸ itemsIn_length pre (i :: used) rest (by simp [hsplit])
  have hatoms : l.items.flatMap Item.atoms = pre.flatMap Item.atoms ++ [.plain i.gap] ++
      (i.core :: used.flatMap Item.atoms ++ rest.flatMap Item.atoms) := by
    simp [hsplit, Item.atoms_eq]
  have hstart : l.startOf pre.length = sizeOf (pre.flatMap Item.atoms ++ [.plain i.gap]) := by
    simp [startOf_length pre _ hsplit]
  have hend : l.stopOf stop = sizeOf (pre.flatMap Item.atoms ++ [.plain i.gap] ++
      (i.core :: used.flatMap Item.atoms)) := by
    have hend := stopOf_length (l := l) (pre ++ i :: used) rest (by simp [hsplit])
    rw [List.length_append, hused] at hend
    simp [hend, Item.atoms_eq]
  have hbytes := startOf_le_stopOf hfirst h
  simp only [render?, span?_eq h hstop, Option.bind_eq_bind, Option.bind_some]
  rw [outputBetween?_eq hbytes (isBoundary_startOf hfirst) (isBoundary_stopOf l stop), hin, hstart,
    hend, outputBetween_atoms hatoms (solid_atoms hsolid), outputOf_cons]

theorem outputFrom?_eq {edits : List Edit} {start : Nat} (hstart : l.source.isBoundary start = true)
    (hfirst : ∀ e ∈ edits, start ≤ e.start)
    (hedits : ∀ e ∈ edits, e.start ≤ e.stop ∧ l.source.isBoundary e.start = true ∧
      l.source.isBoundary e.stop = true)
    (hpairwise : edits.Pairwise fun e f => e.stop ≤ f.start) :
    l.outputFrom? start edits = some (l.outputFrom start edits) := by
  induction edits generalizing start with
  | nil =>
      have hend := Text.isBoundary_byteSize l.source []
      rw [List.append_nil] at hend
      exact outputBetween?_eq (Text.le_of_isBoundary hstart) hstart hend
  | cons e edits ih =>
      obtain ⟨hlater, hpairwise⟩ := List.pairwise_cons.1 hpairwise
      obtain ⟨-, hbegin, hstop⟩ := hedits e (by simp)
      have hmore := fun f hf => hedits f (List.mem_cons_of_mem e hf)
      rw [outputFrom?, outputFrom, outputBetween?_eq (hfirst e (by simp)) hstart hbegin,
        ih hstop hlater hmore hpairwise]
      rfl

end Level

end SoftDelete
