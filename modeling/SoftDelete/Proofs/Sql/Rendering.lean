import SoftDelete.Sql.Edit

namespace SoftDelete

inductive Atom where
  | plain (text : Text)
  | subselect (text body : Text)

namespace Atom

def source : Atom → Text
  | plain text => text
  | subselect text _ => text

def output : Atom → Text
  | plain text => text
  | subselect _ body => '(' :: (body ++ [')'])

@[simp] theorem source_plain (text : Text) : (plain text).source = text := rfl

def Solid : Atom → Prop
  | plain _ => True
  | subselect text _ => text ≠ []

end Atom

def Item.atoms : Item → List Atom
  | .token t => [.plain t.gap, .plain t.text]
  | .subselect gap text body => [.plain gap, .subselect text body]

def Item.core : Item → Atom
  | .token t => .plain t.text
  | .subselect _ text body => .subselect text body

theorem Item.atoms_eq (i : Item) : i.atoms = [.plain i.gap, i.core] := by
  cases i <;> rfl

theorem Item.core_source (i : Item) : i.core.source = i.text := by
  cases i <;> rfl

theorem Item.core_output (i : Item) : i.core.output = i.output := by
  cases i <;> rfl

theorem Item.source_atoms (i : Item) : i.atoms.flatMap Atom.source = i.source := by
  cases i <;> simp [atoms, Atom.source, source, gap, text]

theorem Item.output_atoms (i : Item) : i.atoms.flatMap Atom.output = i.gap ++ i.output := by
  cases i <;> simp [atoms, Atom.output, output, gap]

theorem Level.source_atoms (l : Level) :
    (l.items.flatMap Item.atoms).flatMap Atom.source ++ l.tail = l.source := by
  simp [Level.source, List.flatMap_assoc, Item.source_atoms]

def sizeOf (atoms : List Atom) : Nat :=
  Text.byteSize (atoms.flatMap Atom.source)

@[simp] theorem sizeOf_nil : sizeOf [] = 0 := rfl

@[simp] theorem sizeOf_cons (a : Atom) (as : List Atom) :
    sizeOf (a :: as) = Text.byteSize a.source + sizeOf as := by
  simp [sizeOf]

@[simp] theorem sizeOf_append (as bs : List Atom) : sizeOf (as ++ bs) = sizeOf as + sizeOf bs := by
  simp [sizeOf]

section Places

variable {l : Level} {i : Item}

theorem Level.stopOf_length (front rest : List Item) (h : l.items = front ++ rest) :
    l.stopOf front.length = sizeOf (front.flatMap Item.atoms) := by
  rw [stopOf, upTo, h, List.take_left, sizeOf, List.flatMap_assoc]
  simp [Item.source_atoms]

theorem Level.before_length (front rest : List Item) (h : l.items = front ++ i :: rest) :
    l.before front.length = (front.flatMap Item.atoms).flatMap Atom.source ++ i.gap := by
  rw [before, upTo, h, List.take_left, List.flatMap_assoc]
  simp [Item.source_atoms]

theorem Level.startOf_length (front rest : List Item) (h : l.items = front ++ i :: rest) :
    l.startOf front.length = sizeOf (front.flatMap Item.atoms) + Text.byteSize i.gap := by
  rw [startOf, before_length front rest h, Text.byteSize_append, sizeOf]

theorem Level.itemsIn_length (front mid rest : List Item)
    (h : l.items = front ++ (mid ++ rest)) :
    l.itemsIn front.length (front.length + mid.length) = mid := by
  rw [itemsIn, h, List.drop_left, Nat.add_sub_cancel_left, List.take_left]

end Places

theorem outputOf_cons (i : Item) (items : List Item) :
    outputOf (i :: items) = (i.core :: items.flatMap Item.atoms).flatMap Atom.output := by
  simp [outputOf, List.flatMap_assoc, Item.output_atoms, Item.core_output]

def placedAtoms (offset : Nat) : List Atom → List Placed
  | [] => []
  | .plain text :: atoms => placedAtoms (offset + Text.byteSize text) atoms
  | .subselect text body :: atoms =>
      ⟨offset, offset + Text.byteSize text, body⟩ :: placedAtoms (offset + Text.byteSize text) atoms

theorem placedFrom_eq (offset : Nat) (items : List Item) :
    placedFrom offset items = placedAtoms offset (items.flatMap Item.atoms) := by
  induction items generalizing offset with
  | nil => rfl
  | cons i items ih =>
      cases i <;> simp [placedFrom, placedAtoms, Item.atoms, Item.gap, Item.text, ih]

theorem placedAtoms_append (offset : Nat) (as bs : List Atom) :
    placedAtoms offset (as ++ bs) = placedAtoms offset as ++ placedAtoms (offset + sizeOf as) bs := by
  induction as generalizing offset with
  | nil => simp [placedAtoms, sizeOf]
  | cons a as ih =>
      have hsize : sizeOf (a :: as) = Text.byteSize a.source + sizeOf as := by simp [sizeOf]
      cases a <;> simp [placedAtoms, ih, hsize, Atom.source, Nat.add_assoc]

theorem byteSize_pos {s : Text} (h : s ≠ []) : 0 < Text.byteSize s := by
  cases s with
  | nil => exact absurd rfl h
  | cons c s =>
      have := c.utf8Size_pos
      rw [Text.byteSize_cons]
      omega

theorem mem_placedAtoms {offset : Nat} {atoms : List Atom} (hsolid : ∀ a ∈ atoms, a.Solid)
    {p : Placed} (h : p ∈ placedAtoms offset atoms) :
    offset ≤ p.start ∧ p.start < p.stop ∧ p.stop ≤ offset + sizeOf atoms := by
  induction atoms generalizing offset with
  | nil => cases h
  | cons a atoms ih =>
      have hsize : sizeOf (a :: atoms) = Text.byteSize a.source + sizeOf atoms := by simp [sizeOf]
      have hrest : p ∈ placedAtoms (offset + Text.byteSize a.source) atoms → _ :=
        ih fun b hb => hsolid b (by simp [hb])
      cases a with
      | plain text =>
          have := hrest h
          simp only [Atom.source] at this hsize
          omega
      | subselect text body =>
          simp only [Atom.source] at hrest hsize
          rcases List.mem_cons.1 h with rfl | h
          · have hne : text ≠ [] := hsolid (.subselect text body) (by simp)
            have hpos := byteSize_pos hne
            refine ⟨Nat.le_refl _, Nat.lt_add_of_pos_right hpos, ?_⟩
            rw [hsize, ← Nat.add_assoc]
            exact Nat.le_add_right _ _
          · have := hrest h
            omega

theorem outputWithin_skip {source : Text} {start stop : Nat} {skipped rest : List Placed}
    (h : ∀ p ∈ skipped, ¬ (start ≤ p.start ∧ p.stop ≤ stop)) :
    outputWithin source stop start (skipped ++ rest) = outputWithin source stop start rest := by
  induction skipped with
  | nil => rfl
  | cons p skipped ih =>
      rw [List.cons_append, outputWithin, if_neg (h p (by simp))]
      exact ih fun q hq => h q (by simp [hq])

theorem outputWithin_atoms {source u held v w : Text} {atoms : List Atom} {after : List Placed}
    {stop : Nat} (hsource : source = u ++ (held ++ (atoms.flatMap Atom.source ++ (w ++ v))))
    (hstop : stop = Text.byteSize (u ++ held) + sizeOf atoms + Text.byteSize w)
    (hafter : ∀ p ∈ after, stop < p.stop) :
    outputWithin source stop (Text.byteSize u)
        (placedAtoms (Text.byteSize (u ++ held)) atoms ++ after) =
      held ++ (atoms.flatMap Atom.output ++ w) := by
  induction atoms generalizing u held with
  | nil =>
      have hskip : ∀ p ∈ after, ¬ (Text.byteSize u ≤ p.start ∧ p.stop ≤ stop) := by
        intro p hp
        have := hafter p hp
        omega
      have hrest : outputWithin source stop (Text.byteSize u) (after ++ []) =
          outputWithin source stop (Text.byteSize u) [] := outputWithin_skip hskip
      simp only [placedAtoms, List.nil_append, List.append_nil, List.flatMap_nil] at hrest hsource ⊢
      have hend : stop = Text.byteSize u + Text.byteSize (held ++ w) := by
        simp [hstop, sizeOf, Nat.add_assoc]
      rw [hrest, outputWithin, hsource, hend, ← List.append_assoc held]
      exact Text.slice_append u (held ++ w) v
  | cons a atoms ih =>
      have hsize : sizeOf (a :: atoms) = Text.byteSize a.source + sizeOf atoms := by simp [sizeOf]
      cases a with
      | plain text =>
          have hrest := @ih u (held ++ text) (by simp [hsource, Atom.source])
            (by simp [hstop, hsize, Atom.source, Nat.add_assoc])
          simpa [placedAtoms, Atom.output, Nat.add_assoc] using hrest
      | subselect text body =>
          have hrest := @ih (u ++ (held ++ text)) [] (by simp [hsource, Atom.source])
            (by simp [hstop, hsize, Atom.source, Nat.add_assoc])
          have hslice : Text.slice source (Text.byteSize u) (Text.byteSize (u ++ held)) = held := by
            rw [hsource, Text.byteSize_append]
            exact Text.slice_append u held _
          have hstart : Text.byteSize (u ++ held) + Text.byteSize text =
              Text.byteSize (u ++ (held ++ text)) := by simp [Nat.add_assoc]
          have hinside : Text.byteSize u ≤ Text.byteSize (u ++ held) ∧
              Text.byteSize (u ++ held) + Text.byteSize text ≤ stop := by
            simp only [hstop, Text.byteSize_append, hsize, Atom.source]
            omega
          rw [placedAtoms, List.cons_append, outputWithin, if_pos hinside, hslice, hstart]
          rw [List.append_nil] at hrest
          rw [hrest]
          simp [Atom.output]

section Between

variable {l : Level} {before inside after : List Atom}

theorem outputWithin_before (hsolid : ∀ a ∈ before, a.Solid) (source : Text) (stop : Nat)
    (rest : List Placed) :
    outputWithin source stop (sizeOf before) (placedAtoms 0 before ++ rest) =
      outputWithin source stop (sizeOf before) rest := by
  apply outputWithin_skip
  intro p hp
  have := mem_placedAtoms hsolid hp
  omega

theorem outputBetween_atoms (hatoms : l.items.flatMap Item.atoms = before ++ (inside ++ after))
    (hsolid : ∀ a ∈ l.items.flatMap Item.atoms, a.Solid) :
    l.outputBetween (sizeOf before) (sizeOf (before ++ inside)) = inside.flatMap Atom.output := by
  have hsource : l.source = before.flatMap Atom.source ++ ([] ++ (inside.flatMap Atom.source ++
      ([] ++ (after.flatMap Atom.source ++ l.tail)))) := by
    rw [← l.source_atoms, hatoms]
    simp
  have hafter : ∀ p ∈ placedAtoms (0 + sizeOf before + sizeOf inside) after,
      sizeOf (before ++ inside) < p.stop := by
    intro p hp
    have := mem_placedAtoms (fun a ha => hsolid a (by rw [hatoms]; simp [ha])) hp
    rw [sizeOf_append]
    omega
  have hstop : sizeOf (before ++ inside) =
      Text.byteSize (before.flatMap Atom.source ++ []) + sizeOf inside + Text.byteSize [] := by
    simp [sizeOf]
  have h := outputWithin_atoms hsource hstop hafter
  rw [Level.outputBetween, placedFrom_eq, hatoms, placedAtoms_append,
    outputWithin_before fun a ha => hsolid a (by rw [hatoms]; simp [ha]), placedAtoms_append]
  simpa [sizeOf] using h

theorem outputBetween_end (hatoms : l.items.flatMap Item.atoms = before ++ inside)
    (hsolid : ∀ a ∈ l.items.flatMap Item.atoms, a.Solid) :
    l.outputBetween (sizeOf before) (Text.byteSize l.source) =
      inside.flatMap Atom.output ++ l.tail := by
  have hsource : l.source = before.flatMap Atom.source ++ ([] ++ (inside.flatMap Atom.source ++
      (l.tail ++ []))) := by
    rw [← l.source_atoms, hatoms]
    simp
  have hstop : Text.byteSize l.source =
      Text.byteSize (before.flatMap Atom.source ++ []) + sizeOf inside + Text.byteSize l.tail := by
    simp [hsource, sizeOf, Nat.add_assoc]
  have h := @outputWithin_atoms _ _ _ _ _ _ [] _ hsource hstop (by simp)
  rw [Level.outputBetween, placedFrom_eq, hatoms, placedAtoms_append,
    outputWithin_before fun a ha => hsolid a (by rw [hatoms]; simp [ha])]
  simpa [sizeOf] using h

end Between

inductive Chunk where
  | kept (atoms : List Atom)
  | put (atoms : List Atom) (text : Text)

namespace Chunk

def atoms : Chunk → List Atom
  | kept atoms => atoms
  | put atoms _ => atoms

def output : Chunk → Text
  | kept atoms => atoms.flatMap Atom.output
  | put _ text => text

def edits (offset : Nat) : List Chunk → List Edit
  | [] => []
  | kept atoms :: chunks => edits (offset + sizeOf atoms) chunks
  | put atoms text :: chunks =>
      ⟨offset, offset + sizeOf atoms, text⟩ :: edits (offset + sizeOf atoms) chunks

theorem edits_append (offset : Nat) (cs ds : List Chunk) :
    edits offset (cs ++ ds) =
      edits offset cs ++ edits (offset + sizeOf (cs.flatMap atoms)) ds := by
  induction cs generalizing offset with
  | nil => simp [edits, sizeOf]
  | cons c cs ih =>
      cases c <;> simp [edits, ih, atoms, sizeOf_append, Nat.add_assoc]

theorem le_of_mem_edits {offset : Nat} {cs : List Chunk} {e : Edit} (h : e ∈ edits offset cs) :
    offset ≤ e.start ∧ e.start ≤ e.stop := by
  induction cs generalizing offset with
  | nil => cases h
  | cons c cs ih =>
      cases c with
      | kept atoms =>
          have := ih h
          omega
      | put atoms text =>
          rcases List.mem_cons.1 h with rfl | h
          · exact ⟨Nat.le_refl _, Nat.le_add_right _ _⟩
          · have := ih h
            omega

theorem edits_pairwise (offset : Nat) (cs : List Chunk) :
    (edits offset cs).Pairwise fun e f => Edit.le e f = true := by
  induction cs generalizing offset with
  | nil => exact .nil
  | cons c cs ih =>
      cases c with
      | kept atoms => exact ih _
      | put atoms text =>
          refine List.pairwise_cons.2 ⟨fun e he => ?_, ih _⟩
          have := le_of_mem_edits he
          simp only [Edit.le, Bool.or_eq_true, Bool.and_eq_true, decide_eq_true_eq, beq_iff_eq]
          omega

theorem outputFrom_edits {l : Level} (hsolid : ∀ a ∈ l.items.flatMap Item.atoms, a.Solid)
    {before held : List Atom} {cs : List Chunk}
    (hatoms : l.items.flatMap Item.atoms = before ++ (held ++ cs.flatMap atoms)) :
    l.outputFrom (sizeOf before) (edits (sizeOf (before ++ held)) cs) =
      held.flatMap Atom.output ++ (cs.flatMap output ++ l.tail) := by
  induction cs generalizing before held with
  | nil =>
      rw [List.flatMap_nil, List.append_nil] at hatoms
      exact outputBetween_end hatoms hsolid
  | cons c cs ih =>
      cases c with
      | kept as =>
          have h := @ih before (held ++ as) (by simpa [atoms] using hatoms)
          simpa [edits, output, sizeOf_append, Nat.add_assoc] using h
      | put as text =>
          have h := @ih (before ++ (held ++ as)) []
            (by simpa [atoms] using hatoms)
          have hfront := @outputBetween_atoms l before held
            (as ++ cs.flatMap atoms) (by simpa [atoms] using hatoms) hsolid
          have hstop : sizeOf (before ++ held) + sizeOf as = sizeOf (before ++ (held ++ as)) := by
            simp [Nat.add_assoc]
          rw [List.append_nil] at h
          rw [edits, Level.outputFrom, hfront, hstop]
          dsimp only
          rw [h]
          simp [output]

end Chunk

theorem Level.outputWith_of_sorted {edits : List Edit}
    (h : edits.Pairwise fun a b => Edit.le a b = true) (l : Level) :
    l.outputWith edits = l.outputFrom 0 edits := by
  rw [outputWith, List.mergeSort_of_pairwise h]

theorem solid_atoms {items : List Item} (hsolid : ∀ i ∈ items, i.text ≠ []) :
    ∀ a ∈ items.flatMap Item.atoms, a.Solid := by
  intro a ha
  obtain ⟨i, hi, ha⟩ := List.mem_flatMap.1 ha
  have hne := hsolid i hi
  cases i with
  | token t =>
      rcases List.mem_cons.1 ha with rfl | ha
      · trivial
      · obtain rfl : a = .plain t.text := by simpa using ha
        trivial
  | subselect gap text body =>
      rcases List.mem_cons.1 ha with rfl | ha
      · trivial
      · obtain rfl : a = .subselect text body := by simpa using ha
        exact hne

theorem Level.outputWith_edits {l : Level} (hsolid : ∀ i ∈ l.items, i.text ≠ [])
    {chunks : List Chunk} (hatoms : chunks.flatMap Chunk.atoms = l.items.flatMap Item.atoms) :
    l.outputWith (Chunk.edits 0 chunks) = chunks.flatMap Chunk.output ++ l.tail := by
  rw [Level.outputWith_of_sorted (Chunk.edits_pairwise 0 chunks)]
  exact @Chunk.outputFrom_edits l (solid_atoms hsolid) [] [] chunks (by simpa using hatoms.symm)

theorem Level.outputWith_nil {l : Level} (hsolid : ∀ i ∈ l.items, i.text ≠ []) :
    l.outputWith [] = l.items.flatMap (fun i => i.gap ++ i.output) ++ l.tail := by
  have hout : l.outputWith (Chunk.edits 0 [.kept (l.items.flatMap Item.atoms)]) = _ :=
    Level.outputWith_edits hsolid (by simp [Chunk.atoms])
  simpa [Chunk.edits, Chunk.output, List.flatMap_assoc, Item.output_atoms] using hout

end SoftDelete
