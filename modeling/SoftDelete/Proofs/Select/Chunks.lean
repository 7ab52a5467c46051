import SoftDelete.Proofs.Select.Body
import SoftDelete.Proofs.Sql.Order

namespace SoftDelete

namespace Atom

def held : Atom → List Text
  | plain _ => []
  | subselect text body => [(subselect text body).output]

theorem inOrder (atoms : List Atom) : InOrder (atoms.flatMap held) (atoms.flatMap output) :=
  .flatMap fun a _ => by
    cases a with
    | plain text => exact .nil text
    | subselect text body => exact .one _

end Atom

def Item.held (i : Item) : List Text :=
  i.core.held

theorem held_atoms (items : List Item) :
    (items.flatMap Item.atoms).flatMap Atom.held = items.flatMap Item.held := by
  have hitem : ∀ i : Item, i.atoms.flatMap Atom.held = i.held := fun i => by cases i <;> rfl
  simp [List.flatMap_assoc, hitem]

theorem inOrder_outputOf (items : List Item) :
    InOrder (items.flatMap Item.held) (outputOf items) := by
  cases items with
  | nil => exact .nil _
  | cons i items =>
      have h := Atom.inOrder (i.core :: items.flatMap Item.atoms)
      rwa [List.flatMap_cons, held_atoms, ← outputOf_cons] at h

theorem held_of_tokens {items : List Item} (h : ∀ i ∈ items, i.isSubselect = false) :
    items.flatMap Item.held = [] := by
  rw [List.flatMap_eq_nil_iff]
  intro i hi
  cases i with
  | token t => rfl
  | subselect gap text body => cases h _ hi

def Chunk.Keeps (c : Chunk) : Prop :=
  InOrder (c.atoms.flatMap Atom.held) c.output

def Cuts (offset : Nat) (atoms : List Atom) (edits : List Edit) : Prop :=
  ∃ chunks, chunks.flatMap Chunk.atoms = atoms ∧ (∀ c ∈ chunks, c.Keeps) ∧
    Chunk.edits offset chunks = edits

namespace Cuts

variable {offset : Nat} {as bs : List Atom} {es fs : List Edit}

theorem of_chunk {c : Chunk} (h : c.Keeps) (offset : Nat) :
    Cuts offset c.atoms (Chunk.edits offset [c]) :=
  ⟨[c], by simp, fun d hd => List.mem_singleton.1 hd ▸ h, rfl⟩

theorem kept (offset : Nat) (as : List Atom) : Cuts offset as [] :=
  of_chunk (show (Chunk.kept as).Keeps from Atom.inOrder as) offset

theorem put {text : Text} (h : InOrder (as.flatMap Atom.held) text) :
    Cuts offset as [⟨offset, offset + sizeOf as, text⟩] :=
  of_chunk (show (Chunk.put as text).Keeps from h) offset

theorem insert (offset : Nat) (text : Text) : Cuts offset [] [.insert offset text] :=
  put (.nil text)

theorem append (h : Cuts offset as es) (h' : Cuts (offset + sizeOf as) bs fs) :
    Cuts offset (as ++ bs) (es ++ fs) := by
  obtain ⟨chunks, rfl, hkeeps, rfl⟩ := h
  obtain ⟨more, rfl, hkeeps', rfl⟩ := h'
  refine ⟨chunks ++ more, by simp, fun c hc => ?_, Chunk.edits_append offset chunks more⟩
  exact (List.mem_append.1 hc).elim (hkeeps c) (hkeeps' c)

end Cuts

theorem Cuts.inOrder {l : Level} {edits : List Edit} (h : Cuts 0 (l.items.flatMap Item.atoms) edits)
    (hsolid : ∀ i ∈ l.items, i.text ≠ []) :
    InOrder (l.items.flatMap Item.held) (l.outputWith edits) := by
  obtain ⟨chunks, hatoms, hkeeps, rfl⟩ := h
  rw [Level.outputWith_edits hsolid hatoms, ← held_atoms, ← hatoms, List.flatMap_assoc]
  exact (InOrder.flatMap hkeeps).before l.tail

section Places

variable {l : Level} {column : Text}

def Recut (pre items : List Item) (edits : List Edit) : Prop :=
  Cuts (sizeOf (pre.flatMap Item.atoms)) (items.flatMap Item.atoms) edits

theorem Recut.kept (pre items : List Item) : Recut pre items [] :=
  Cuts.kept _ _

theorem Recut.append {pre items rest : List Item} {es fs : List Edit} (h : Recut pre items es)
    (h' : Recut (pre ++ items) rest fs) : Recut pre (items ++ rest) (es ++ fs) := by
  unfold Recut at h h' ⊢
  rw [List.flatMap_append, sizeOf_append] at h'
  rw [List.flatMap_append]
  exact h.append h'

variable (pre post : List Item)

theorem recut_insert (h : l.items = pre ++ post) (text : Text) :
    Recut pre [] [.insert (l.stopOf pre.length) text] := by
  rw [Level.stopOf_length pre post h]
  exact .insert _ text

theorem recut_edit (i : Item) (used : List Item) {text : Text}
    (h : l.items = pre ++ (i :: used ++ post)) (htext : InOrder ((i :: used).flatMap Item.held) text) :
    Recut pre (i :: used)
      [⟨l.startOf pre.length, l.stopOf (pre ++ i :: used).length, text⟩] := by
  have hstart := Level.startOf_length pre (used ++ post) (by simpa using h)
  have hstop := Level.stopOf_length (pre ++ i :: used) post (by simpa using h)
  have hheld : InOrder ((i.core :: used.flatMap Item.atoms).flatMap Atom.held) text := by
    rwa [List.flatMap_cons, held_atoms]
  have hall := (Cuts.kept (sizeOf (pre.flatMap Item.atoms)) [.plain i.gap]).append (Cuts.put hheld)
  rw [hstart, hstop]
  simpa [Recut, Item.atoms_eq, Atom.source, Nat.add_assoc] using hall

theorem recut_enclose (i : Item) (used : List Item) (h : l.items = pre ++ (i :: used ++ post))
    (opening closing : Text) :
    Recut pre (i :: used)
      [.insert (l.startOf pre.length) opening,
        .insert (l.stopOf (pre ++ i :: used).length) closing] := by
  have hstart := Level.startOf_length pre (used ++ post) (by simpa using h)
  have hstop := Level.stopOf_length (pre ++ i :: used) post (by simpa using h)
  have hgap := Cuts.kept (sizeOf (pre.flatMap Item.atoms)) [.plain i.gap]
  have hopen := hgap.append (.insert _ opening)
  have hkept := hopen.append (.kept _ (i.core :: used.flatMap Item.atoms))
  have hall := hkept.append (.insert _ closing)
  rw [hstart, hstop]
  simpa [Recut, Item.atoms_eq, Atom.source, Nat.add_assoc] using hall

theorem whereEdits_recut {as : List Item} (h : l.items = pre ++ (as ++ post)) (condition : Text) :
    Recut pre as (whereEdits l pre.length as condition) := by
  unfold whereEdits
  split
  · rename_i hwhere
    obtain ⟨w, rest, rfl⟩ : ∃ w rest, as = w :: rest := by
      cases as with
      | nil => cases hwhere
      | cons w rest => exact ⟨w, rest, rfl⟩
    have hsplit := breakAt_append opensClause 0 rest
    rw [List.tail_cons]
    generalize (breakAt opensClause 0 rest).1 = own at hsplit ⊢
    generalize (breakAt opensClause 0 rest).2 = later at hsplit
    subst hsplit
    have hword := Recut.kept pre [w]
    have hlater := Recut.kept (pre ++ [w] ++ own) later
    cases own with
    | nil =>
        have hinsert := recut_insert (pre ++ [w]) (later ++ post) (by simpa using h) (' ' :: condition)
        simpa using hword.append (hinsert.append hlater)
    | cons i own =>
        have henclose := recut_enclose (pre ++ [w]) (later ++ post) i own (by simpa using h) ['(']
          (") AND ".toList ++ condition)
        simpa [Nat.add_assoc, Nat.add_comm] using hword.append (henclose.append hlater)
  · have hkept := Recut.kept (pre ++ []) as
    simpa using (recut_insert pre (as ++ post) h (" WHERE ".toList ++ condition)).append hkept

namespace Join

variable {j : Join} {targets own : List Text} {edit : Edit}

theorem conjunction_inOrder {os : List Item} (h : l.items = pre ++ (os ++ post))
    (hspans : Clause.Spans pre.length os j.clause) (hown : j.ownCondition l = .ok own)
    (filters : List Text) :
    InOrder (os.flatMap Item.held) (Text.joined " AND " (filters ++ own)) := by
  unfold ownCondition at hown
  generalize j.clause = clause at hspans hown
  cases hspans with
  | none => exact .nil _
  | @on i cond tree hon _ =>
      cases hown
      have hrange := Level.itemsIn_length (pre ++ [i]) cond post (by simpa using h)
      rw [List.length_append, List.length_singleton] at hrange
      have hword : [i].flatMap Item.held = [] :=
        held_of_tokens (by simpa using Item.isSubselect_of_spells hon)
      rw [← List.singleton_append, List.flatMap_append, hword, List.nil_append, hrange]
      exact (((inOrder_outputOf cond).before [')']).behind ['(']).joined " AND " filters
  | «using» => cases hown

theorem edit_recut {ps : List Item} (h : l.items = pre ++ (ps ++ post))
    (hspans : j.Spans pre.length ps) (hedit : j.edit l column targets = .ok edit) :
    Recut pre ps [edit] := by
  obtain ⟨own, hown, hedit⟩ := exists_of_bind_ok hedit
  obtain @⟨keyword, table, os, _, hkind, -, htable, hclause, hrange⟩ := hspans
  obtain ⟨k, ks, rfl⟩ := List.exists_cons_of_ne_nil hkind.ne_nil
  have htables := Level.itemsIn_length (pre ++ k :: ks) table (os ++ post) (by simpa using h)
  rw [List.length_append] at htables
  have hconjunction := conjunction_inOrder (pre ++ (k :: ks ++ table)) post (by simpa using h)
    (by rwa [List.length_append, List.length_append]) hown (targets.map (filterCondition column))
  have htext : InOrder ((k :: (ks ++ table ++ os)).flatMap Item.held)
      (j.leadingSpace l ++ (j.keywordText l ++ ' ' :: (outputOf table ++ (" ON ".toList ++
        Text.joined " AND " (targets.map (filterCondition column) ++ own))))) := by
    have hheld : (k :: (ks ++ table ++ os)).flatMap Item.held =
        table.flatMap Item.held ++ os.flatMap Item.held := by
      have hkeyword := held_of_tokens hkind.tokens
      rw [← List.cons_append, ← List.cons_append, List.flatMap_append, List.flatMap_append, hkeyword,
        List.nil_append]
    rw [hheld]
    have htables := (inOrder_outputOf table).append (hconjunction.behind " ON ".toList)
    exact ((htables.behind [' ']).behind (j.keywordText l)).behind (j.leadingSpace l)
  have hcuts := recut_edit pre post k (ks ++ table ++ os) (by simpa using h) htext
  rw [htable.range, htables, hrange] at hedit
  rw [← Except.ok.inj hedit]
  simpa [Nat.add_assoc] using hcuts

theorem edits_recut {ps : List Item} (h : l.items = pre ++ (ps ++ post)) {js : List Join}
    {plan : List (List Text)} {es : List Edit} (hspans : ListSpans pre.length ps js)
    (hedits : ((js.zip plan).filter fun pair => !pair.2.isEmpty).mapM
      (fun pair => pair.1.edit l column pair.2) = .ok es) :
    Recut pre ps es := by
  induction js generalizing pre ps plan es with
  | nil =>
      cases hedits
      exact .kept _ _
  | cons j js ih =>
      obtain _ | @⟨_, used, rest, _, _, hfirst, hrest⟩ := hspans
      cases plan with
      | nil =>
          cases hedits
          exact .kept _ _
      | cons targets plan =>
          have hlater : ∀ {es}, ((js.zip plan).filter fun pair => !pair.2.isEmpty).mapM
              (fun pair => pair.1.edit l column pair.2) = .ok es → _ := fun h' =>
            ih (pre ++ used) (by simpa using h) (by simpa using hrest) h'
          by_cases hnone : targets = []
          · subst hnone
            exact (Recut.kept pre used).append (hlater hedits)
          · rw [List.zip_cons_cons, filtered_cons hnone, List.mapM_cons] at hedits
            obtain ⟨e, he, hedits⟩ := exists_of_bind_ok hedits
            obtain ⟨es, hes, hedits⟩ := exists_of_bind_ok hedits
            cases hedits
            exact (edit_recut pre (rest ++ post) (by simpa using h) hfirst he).append (hlater hes)

end Join

variable {catalog : Catalog} {options : Options} {edit : LevelEdit}

theorem bodyEdit_recut {body : List Item} (h : l.items = pre ++ (body ++ post))
    (hedit : bodyEdit catalog options l pre.length body = .ok edit) :
    Recut pre body edit.edits := by
  cases bodyEdit_ends hedit with
  | noFrom | unnamed => exact .kept _ _
  | @filtered front items after f r edits hparts hparse hedits =>
      obtain rfl := hparts.body_eq
      obtain ⟨head, rest, rfl, hspans⟩ := References.parse_spans hparse
      have hplace : ∀ used : List Item, (pre ++ (front ++ f :: used)).length =
          pre.length + front.length + 1 + used.length := fun used => by
        simp
        omega
      have hfront := Recut.kept pre (front ++ f :: head)
      have hjoins := Join.edits_recut (pre ++ (front ++ f :: head)) (after ++ post)
        (by simpa using h) (by rw [hplace]; exact hspans.joins) hedits
      have hwhere : Recut (pre ++ (front ++ f :: (head ++ rest))) after
          ((r.plan catalog).carried.toList.flatMap fun target =>
            whereEdits l (pre.length + front.length + 1 + (head ++ rest).length) after
              (filterCondition options.column target)) := by
        rw [← hplace]
        cases (r.plan catalog).carried with
        | none => exact .kept _ _
        | some target =>
            simpa using whereEdits_recut (pre ++ (front ++ f :: (head ++ rest))) post
              (by simpa using h) (filterCondition options.column target)
      have hall := hfront.append (hjoins.append (by simpa using hwhere))
      simpa using hall

theorem bodyEdits_recut {items : List Item} (h : l.items = pre ++ items)
    (hedit : bodyEdits catalog options l pre.length (bodies items) = .ok edit) :
    Recut pre items edit.edits := by
  fun_induction bodies items generalizing pre edit with
  | case1 items body hbreak =>
      obtain rfl := eq_of_breakAt hbreak
      obtain ⟨first, hfirst, hedit⟩ := exists_of_bind_ok hedit
      cases hedit
      simpa using bodyEdit_recut pre [] (by simpa using h) hfirst
  | case2 items body u rest hbreak ih =>
      obtain rfl := eq_append_of_breakAt hbreak
      obtain ⟨first, hfirst, hedit⟩ := exists_of_bind_ok hedit
      obtain ⟨more, hmore, hedit⟩ := exists_of_bind_ok hedit
      cases hedit
      have hbody := bodyEdit_recut pre (u :: rest) h hfirst
      have hunion := Recut.kept (pre ++ body) [u]
      have hlater := ih (pre ++ body ++ [u]) (by simpa using h) (by simpa [Nat.add_assoc] using hmore)
      simpa using hbody.append (hunion.append hlater)

end Places

theorem Level.filterEdit_cuts {l : Level} {catalog : Catalog} {options : Options} {edit : LevelEdit}
    (h : l.filterEdit catalog options = .ok edit) :
    Cuts 0 (l.items.flatMap Item.atoms) edit.edits :=
  bodyEdits_recut [] rfl h

end SoftDelete
