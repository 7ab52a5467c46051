import SoftDelete.Proofs.Sql.Rendering
import SoftDelete.Text.Blank

namespace SoftDelete

/-- A list in which `none` is a place left open. -/
abbrev Pattern (α : Type) := List (Option α)

section Fill

variable {α : Type} (a : α) (p q : Pattern α)

def fill : List α :=
  p.map (·.getD a)

def holes : Nat :=
  p.countP Option.isNone

@[simp] theorem fill_nil : fill a [] = [] := rfl

@[simp] theorem fill_cons (o : Option α) : fill a (o :: p) = o.getD a :: fill a p := rfl

@[simp] theorem fill_append : fill a (p ++ q) = fill a p ++ fill a q := by
  simp [fill]

@[simp] theorem fill_map_some (xs : List α) : fill a (xs.map some) = xs := by
  simp [fill, Function.comp_def]

@[simp] theorem fill_length : (fill a p).length = p.length := by
  simp [fill]

theorem fill_tail : (fill a p).tail = fill a p.tail := by
  simp [fill]

@[simp] theorem holes_nil : holes ([] : Pattern α) = 0 := rfl

@[simp] theorem holes_none : holes (none :: p) = holes p + 1 := by
  simp [holes]

@[simp] theorem holes_some : holes (some a :: p) = holes p := by
  simp [holes]

@[simp] theorem holes_append : holes (p ++ q) = holes p + holes q := by
  simp [holes]

@[simp] theorem holes_map_some (xs : List α) : holes (xs.map some) = 0 := by
  simp [holes]

theorem holes_le_of_sublist {p q : Pattern α} (h : p.Sublist q) : holes p ≤ holes q :=
  h.countP_le

theorem fill_eq_of_holes (b : α) (h : holes p = 0) : fill a p = fill b p := by
  induction p with
  | nil => rfl
  | cons o p ih =>
      cases o with
      | none => simp at h
      | some c => simpa using ih (by simpa using h)

end Fill

section Write

variable (t : Text) (p q : Pattern Char)

def write : Text :=
  p.flatMap fun
    | some c => [c]
    | none => t

@[simp] theorem write_nil : write t [] = [] := rfl

@[simp] theorem write_none : write t (none :: p) = t ++ write t p := rfl

@[simp] theorem write_some (c : Char) : write t (some c :: p) = c :: write t p := rfl

@[simp] theorem write_append : write t (p ++ q) = write t p ++ write t q := by
  simp [write]

@[simp] theorem write_map_some (s : Text) : write t (s.map some) = s := by
  induction s with
  | nil => rfl
  | cons c s ih => simp [ih]

variable {p}

theorem exists_of_holes_zero (h : holes p = 0) : ∃ s, ∀ t, write t p = s := by
  induction p with
  | nil => exact ⟨[], fun _ => rfl⟩
  | cons o p ih =>
      cases o with
      | none => simp at h
      | some c =>
          obtain ⟨s, hs⟩ := ih (by simpa using h)
          exact ⟨c :: s, fun t => by simp [hs]⟩

theorem exists_of_holes_one (h : holes p = 1) :
    ∃ before after, ∀ t, write t p = before ++ (t ++ after) := by
  induction p with
  | nil => simp at h
  | cons o p ih =>
      cases o with
      | none =>
          obtain ⟨after, hafter⟩ := exists_of_holes_zero (p := p) (by simpa using h)
          exact ⟨[], after, fun t => by simp [hafter]⟩
      | some c =>
          obtain ⟨before, after, hsplit⟩ := ih (by simpa using h)
          exact ⟨c :: before, after, fun t => by simp [hsplit]⟩

def joinedPattern (separator : String) (ps : List (Pattern Char)) : Pattern Char :=
  (separator.toList.map some).intercalate ps

theorem write_joinedPattern (separator : String) (ps : List (Pattern Char)) :
    write t (joinedPattern separator ps) = Text.joined separator (ps.map (write t)) := by
  match ps with
  | [] => rfl
  | [p] => simp [joinedPattern, Text.joined]
  | p :: q :: ps =>
      have ih := write_joinedPattern separator (q :: ps)
      simp only [joinedPattern, Text.joined, List.map_cons] at ih ⊢
      rw [List.intercalate_cons_cons, List.intercalate_cons_cons]
      simp [ih]

theorem holes_joinedPattern (separator : String) (ps : List (Pattern Char)) :
    holes (joinedPattern separator ps) = holes ps.flatten := by
  match ps with
  | [] => rfl
  | [p] => simp [joinedPattern]
  | p :: q :: ps =>
      have ih := holes_joinedPattern separator (q :: ps)
      rw [joinedPattern] at ih ⊢
      rw [List.intercalate_cons_cons]
      simp [ih]

end Write

section Atoms

variable {gap : Text} {f : Item} {slots : Pattern Item}

def slotAtoms (gap : Text) : Option Item → Pattern Atom
  | some i => i.atoms.map some
  | none => [some (.plain gap), none]

def atomsOf (gap : Text) (slots : Pattern Item) : Pattern Atom :=
  slots.flatMap (slotAtoms gap)

@[simp] theorem atomsOf_nil : atomsOf gap [] = [] := rfl

@[simp] theorem atomsOf_append (slots more : Pattern Item) :
    atomsOf gap (slots ++ more) = atomsOf gap slots ++ atomsOf gap more := by
  simp [atomsOf]

theorem fill_slotAtoms (hf : f.gap = gap) (o : Option Item) :
    fill f.core (slotAtoms gap o) = (o.getD f).atoms := by
  cases o with
  | none => simp [slotAtoms, Item.atoms_eq, hf]
  | some i => simp [slotAtoms]

theorem fill_atomsOf (hf : f.gap = gap) (slots : Pattern Item) :
    fill f.core (atomsOf gap slots) = (fill f slots).flatMap Item.atoms := by
  induction slots with
  | nil => rfl
  | cons o slots ih =>
      rw [atomsOf, List.flatMap_cons, fill_append, fill_slotAtoms hf, ← atomsOf, ih, fill_cons,
        List.flatMap_cons]

theorem holes_atomsOf (gap : Text) (slots : Pattern Item) : holes (atomsOf gap slots) = holes slots := by
  induction slots with
  | nil => rfl
  | cons o slots ih =>
      rw [atomsOf, List.flatMap_cons, holes_append, ← atomsOf, ih]
      cases o with
      | none => simp [slotAtoms, Nat.add_comm]
      | some i => simp [slotAtoms]

def outputsOf (atoms : Pattern Atom) : Pattern Char :=
  atoms.flatMap fun
    | some a => a.output.map some
    | none => [none]

theorem write_outputsOf (a : Atom) (atoms : Pattern Atom) :
    write a.output (outputsOf atoms) = (fill a atoms).flatMap Atom.output := by
  induction atoms with
  | nil => rfl
  | cons o atoms ih =>
      rw [outputsOf, List.flatMap_cons, write_append, ← outputsOf, ih]
      cases o <;> simp

theorem holes_outputsOf (atoms : Pattern Atom) : holes (outputsOf atoms) = holes atoms := by
  induction atoms with
  | nil => rfl
  | cons o atoms ih =>
      rw [outputsOf, List.flatMap_cons, holes_append, ← outputsOf, ih]
      cases o <;> simp [Nat.add_comm]

def outputPattern (gap : Text) (slots : Pattern Item) : Pattern Char :=
  outputsOf (atomsOf gap slots).tail

theorem slotAtoms_tail (o : Option Item) (later : Pattern Atom) :
    (slotAtoms gap o ++ later).tail = o.map Item.core :: later := by
  cases o <;> simp [slotAtoms, Item.atoms_eq]

theorem write_outputPattern (hf : f.gap = gap) (slots : Pattern Item) :
    write f.output (outputPattern gap slots) = outputOf (fill f slots) := by
  cases slots with
  | nil => rfl
  | cons o slots =>
      rw [outputPattern, atomsOf, List.flatMap_cons, slotAtoms_tail, ← atomsOf, ← f.core_output,
        write_outputsOf, fill_cons, fill_cons, fill_atomsOf hf, outputOf_cons]
      cases o <;> rfl

theorem holes_outputPattern (slots : Pattern Item) :
    holes (outputPattern gap slots) = holes slots := by
  rw [outputPattern, holes_outputsOf]
  cases slots with
  | nil => rfl
  | cons o slots =>
      have hall := holes_atomsOf gap (o :: slots)
      rw [atomsOf, List.flatMap_cons, ← atomsOf] at hall ⊢
      rw [slotAtoms_tail, ← hall]
      cases o <;> simp [slotAtoms, Item.atoms_eq]

end Atoms

structure Fits (gap : Text) (f : Item) : Prop where
  gap_eq : f.gap = gap
  text_ne_nil : f.text ≠ []
  last : ∀ c, f.text.getLast? = some c → isBlank c = false

def Solid (slots : Pattern Item) : Prop :=
  ∀ i, some i ∈ slots → i.text ≠ []

theorem Fits.exists_last {gap : Text} {f : Item} (h : Fits gap f) :
    ∃ c, f.text.getLast? = some c ∧ isBlank c = false := by
  have hc := List.getLast?_eq_some_getLast h.text_ne_nil
  exact ⟨_, hc, h.last _ hc⟩

theorem Solid.fill {gap : Text} {f : Item} {slots : Pattern Item} (h : Solid slots)
    (hf : Fits gap f) : ∀ i ∈ fill f slots, i.text ≠ [] := by
  intro i hi
  obtain ⟨o, ho, rfl⟩ := List.mem_map.1 hi
  cases o with
  | none => exact hf.text_ne_nil
  | some i => exact h i ho

inductive OpenChunk where
  | kept (atoms : Pattern Atom)
  | put (atoms : Pattern Atom) (text : Pattern Char)

namespace OpenChunk

def atoms : OpenChunk → Pattern Atom
  | kept atoms => atoms
  | put atoms _ => atoms

def output : OpenChunk → Pattern Char
  | kept atoms => outputsOf atoms
  | put _ text => text

def close (a : Atom) : OpenChunk → Chunk
  | kept atoms => .kept (fill a atoms)
  | put atoms text => .put (fill a atoms) (write a.output text)

def Keeps : OpenChunk → Prop
  | kept _ => True
  | put atoms text => holes text = holes atoms

variable (a : Atom) (cs : List OpenChunk)

theorem atoms_close : (cs.map (close a)).flatMap Chunk.atoms = fill a (cs.flatMap atoms) := by
  induction cs with
  | nil => rfl
  | cons c cs ih => cases c <;> simp [close, atoms, Chunk.atoms, ih]

theorem output_close :
    (cs.map (close a)).flatMap Chunk.output = write a.output (cs.flatMap output) := by
  induction cs with
  | nil => rfl
  | cons c cs ih => cases c <;> simp [close, output, Chunk.output, write_outputsOf, ih]

variable {cs}

theorem holes_output (h : ∀ c ∈ cs, c.Keeps) :
    holes (cs.flatMap output) = holes (cs.flatMap atoms) := by
  induction cs with
  | nil => rfl
  | cons c cs ih =>
      have hc := h c (by simp)
      have hrest := ih fun d hd => h d (by simp [hd])
      cases c with
      | kept as => simp [output, atoms, holes_outputsOf, hrest]
      | put as text =>
          have hsame : holes text = holes as := hc
          simp [output, atoms, hsame, hrest]

end OpenChunk

structure Covers (gap : Text) (slots : Pattern Item) (cs : List OpenChunk) : Prop where
  atoms : cs.flatMap OpenChunk.atoms = atomsOf gap slots
  keeps : ∀ c ∈ cs, c.Keeps

theorem Covers.append {gap : Text} {slots more : Pattern Item} {cs ds : List OpenChunk}
    (h : Covers gap slots cs) (h' : Covers gap more ds) :
    Covers gap (slots ++ more) (cs ++ ds) where
  atoms := by simp [h.atoms, h'.atoms]
  keeps c hc := (List.mem_append.1 hc).elim (h.keeps c) (h'.keeps c)

theorem Covers.kept (gap : Text) (slots : Pattern Item) :
    Covers gap slots [.kept (atomsOf gap slots)] where
  atoms := by simp [OpenChunk.atoms]
  keeps c hc := by
    obtain rfl := List.mem_singleton.1 hc
    trivial

def editsOf (gap : Text) (f : Item) (front : Pattern Item) (cs : List OpenChunk) : List Edit :=
  Chunk.edits (sizeOf (fill f.core (atomsOf gap front))) (cs.map (OpenChunk.close f.core))

theorem editsOf_append {gap : Text} {slots : Pattern Item} {cs : List OpenChunk}
    (h : Covers gap slots cs) (f : Item) (front : Pattern Item) (ds : List OpenChunk) :
    editsOf gap f front (cs ++ ds) =
      editsOf gap f front cs ++ editsOf gap f (front ++ slots) ds := by
  rw [editsOf, List.map_append, Chunk.edits_append, OpenChunk.atoms_close, h.atoms]
  simp [editsOf]

def Laid (gap : Text) (f g : Item) (front slots : Pattern Item) (es es' : List Edit) : Prop :=
  ∃ cs, Covers gap slots cs ∧ es = editsOf gap f front cs ∧ es' = editsOf gap g front cs

namespace Laid

variable {gap : Text} {f g : Item} {front slots more : Pattern Item} {es es' ds ds' : List Edit}

theorem kept (gap : Text) (f g : Item) (front slots : Pattern Item) :
    Laid gap f g front slots [] [] :=
  ⟨_, .kept gap slots, rfl, rfl⟩

theorem append (h : Laid gap f g front slots es es')
    (h' : Laid gap f g (front ++ slots) more ds ds') :
    Laid gap f g front (slots ++ more) (es ++ ds) (es' ++ ds') := by
  obtain ⟨cs, hcs, rfl, rfl⟩ := h
  obtain ⟨cs', hcs', rfl, rfl⟩ := h'
  exact ⟨cs ++ cs', hcs.append hcs', (editsOf_append hcs f front cs').symm,
    (editsOf_append hcs g front cs').symm⟩

theorem exists_output (h : Laid gap f g [] slots es es') (hopen : holes slots = 1)
    (hsolid : Solid slots) (hf : Fits gap f) (hg : Fits gap g) (tail : Text) :
    ∃ before after,
      Level.outputWith ⟨fill f slots, tail⟩ es = before ++ (f.output ++ after) ∧
        Level.outputWith ⟨fill g slots, tail⟩ es' = before ++ (g.output ++ after) := by
  obtain ⟨cs, hcs, rfl, rfl⟩ := h
  obtain ⟨before, after, hwrite⟩ := exists_of_holes_one (p := cs.flatMap OpenChunk.output) (by
    rw [OpenChunk.holes_output hcs.keeps, hcs.atoms, holes_atomsOf, hopen])
  have hall : ∀ x : Item, Fits gap x →
      Level.outputWith ⟨fill x slots, tail⟩ (editsOf gap x [] cs) =
        before ++ (x.output ++ (after ++ tail)) := by
    intro x hx
    have hatoms : (cs.map (OpenChunk.close x.core)).flatMap Chunk.atoms =
        (fill x slots).flatMap Item.atoms := by
      rw [OpenChunk.atoms_close, hcs.atoms, fill_atomsOf hx.gap_eq]
    have houtput := Level.outputWith_edits (l := ⟨fill x slots, tail⟩) (hsolid.fill hx) hatoms
    rw [OpenChunk.output_close, x.core_output, hwrite] at houtput
    simpa [editsOf] using houtput
  exact ⟨before, after ++ tail, hall f hf, hall g hg⟩

end Laid

end SoftDelete
