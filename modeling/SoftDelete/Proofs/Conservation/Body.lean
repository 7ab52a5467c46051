import SoftDelete.Proofs.Conservation.Level
import SoftDelete.Proofs.Select.Body

namespace SoftDelete

open Piece

section Where

variable {column target : Text} {l : Level} {pre as post : List (Piece column)}

def whereMarks (target : Text) : List (Piece column) → List Mark
  | [] => [.keyword "WHERE", .filter target]
  | p :: ps =>
      if p.item.spells "WHERE" then
        let n := (breakAt opensClause 0 (ps.map item)).1.length
        let own := if n = 0 then [.filter target]
          else .opening :: (allMarks (ps.take n) ++ [.closing, .keyword "AND", .filter target])
        p.marks ++ (own ++ allMarks (ps.drop n))
      else .keyword "WHERE" :: .filter target :: allMarks (p :: ps)

theorem whereMarks_new (target : Text) (h : startsWithWords ["WHERE"] (as.map item) = false) :
    whereMarks target as = .keyword "WHERE" :: .filter target :: allMarks as := by
  cases as with
  | nil => rfl
  | cons p ps =>
      have hp : p.item.spells "WHERE" = false := by simpa [startsWithWords] using h
      simp [whereMarks, hp]

theorem whereMarks_own (target : Text) {p : Piece column} {qs rs : List (Piece column)}
    (hp : p.item.spells "WHERE" = true)
    (hqs : (breakAt opensClause 0 ((qs ++ rs).map item)).1 = qs.map item) :
    whereMarks target (p :: (qs ++ rs)) = p.marks ++
      ((if qs = [] then [.filter target]
        else .opening :: (allMarks qs ++ [.closing, .keyword "AND", .filter target])) ++
        allMarks rs) := by
  simp only [whereMarks, hp, if_true, hqs, List.length_map, List.take_left, List.drop_left,
    List.length_eq_zero_iff]

theorem exists_wherePassage (hcolumn : IsFlagWord column) (htarget : IsTarget target)
    (hitems : l.items = (pre ++ (as ++ post)).map item) :
    ∃ d, Passage Safe Calmer as d ∧ d.targets = [target] ∧ d.marks = whereMarks target as ∧
      Chunk.edits (sizeOf (allAtoms pre)) d.chunks =
        whereEdits l pre.length (as.map item) (filterCondition column target) := by
  unfold whereEdits
  split
  · rename_i hwhere
    obtain ⟨p, rest, rfl⟩ : ∃ p rest, as = p :: rest := by
      cases as with
      | nil => cases hwhere
      | cons p rest => exact ⟨p, rest, rfl⟩
    have hp : p.item.spells "WHERE" = true := by simpa [startsWithWords] using hwhere
    have hsplit := breakAt_append opensClause 0 (rest.map item)
    obtain ⟨qs, rs, rfl, hqs, hrs⟩ := List.map_eq_append_iff.1 hsplit.symm
    have hmarks := whereMarks_own target hp hqs.symm
    have hkept := Passage.of_own rs
    have hstop := Level.stopOf_eq (pre ++ p :: qs) (rs ++ post) (by simpa using hitems)
    simp only [List.map_cons, List.tail_cons, ← hqs]
    cases qs with
    | nil =>
        obtain ⟨written, hempty⟩ := Passage.exists_emptyWhere hcolumn htarget hp
        refine ⟨_, (hempty.of_apart.mono (fun _ _ hr => hr) fun _ _ hr => hr.toCalmer).append hkept,
          by simp [Passage.kept], by simpa [Passage.kept] using hmarks.symm, ?_⟩
        have hstop' : l.stopOf (pre.length + 1) = sizeOf (allAtoms pre) + sizeOf p.item.atoms := by
          simpa [allAtoms] using hstop
        simp [Chunk.edits, Passage.kept, Edit.insert, hstop']
    | cons q qs =>
        obtain ⟨written, hown⟩ := Passage.exists_ownWhere hcolumn htarget q qs hp
        refine ⟨_, (hown.of_apart.mono (fun _ _ hr => hr) fun _ _ hr => hr.toCalmer).append hkept,
          by simp [Passage.kept], by simpa [Passage.kept] using hmarks.symm, ?_⟩
        have hstart := Level.startOf_eq (pre ++ [p]) q (qs ++ (rs ++ post))
          (by simpa using hitems)
        have hstart' : l.startOf (pre.length + 1) =
            sizeOf (allAtoms pre) + (sizeOf p.item.atoms + Text.byteSize q.item.gap) := by
          simpa [allAtoms, Nat.add_assoc] using hstart
        have hstop' : l.stopOf (pre.length + (1 + (qs.length + 1))) = sizeOf (allAtoms pre) +
            (sizeOf p.item.atoms + (Text.byteSize q.item.gap +
              (Text.byteSize q.item.core.source + sizeOf (allAtoms qs)))) := by
          rw [show pre.length + (1 + (qs.length + 1)) = (pre ++ p :: q :: qs).length by
            simp [Nat.add_comm], hstop]
          simp [allAtoms, Item.atoms_eq, Nat.add_assoc]
        simp [Chunk.edits, Passage.kept, Edit.insert, hstart', hstop', Nat.add_assoc]
  · rename_i hwhere
    obtain ⟨written, hnew⟩ := Passage.exists_newWhere hcolumn htarget
    have hkept := Passage.of_own as
    have hstop := Level.stopOf_eq pre (as ++ post) hitems
    refine ⟨_, (hnew.of_apart.mono (fun _ _ hr => hr) fun _ _ hr => hr.calmer).append hkept,
      rfl, ?_, ?_⟩
    · rw [whereMarks_new target (by simpa using hwhere)]
      rfl
    · simp [Chunk.edits, Passage.kept, Edit.insert, hstop]

end Where

theorem isTarget_of_namedIn {column target : Text} {ps : List (Piece column)}
    (h : NamedIn (ps.map item) target) : IsTarget target := by
  obtain ⟨names, hne, hnames, htext⟩ := h
  refine ⟨names, ⟨hne, fun t ht => (hnames t ht).2, fun t ht => ?_⟩, htext⟩
  obtain ⟨p, hp, hitem⟩ := List.mem_map.1 (hnames t ht).1
  obtain ⟨hgiven, -, -⟩ := p.ofToken t hitem
  obtain ⟨r, hr⟩ := p.stands t (by simp [hgiven])
  exact ⟨r, hr.lexeme⟩

theorem opener_of_word {t : Token} (h : t.kind = .word) (ts : List Token) :
    opener (t :: ts) = some t.bare := by
  simp [opener, h]

section Bodies

variable {catalog : Catalog} {options : Options} {l : Level}
  {pre bs : List (Piece options.column)} {edit : LevelEdit}

theorem namedIn_of_plan {r : References} {room maxJoins start : Nat} {items : List Item}
    {after : Option Item} (h : References.parse room maxJoins start items after = .ok r)
    (catalog : Catalog) : ∀ target ∈ (r.plan catalog).constrained, NamedIn items target := by
  intro target htarget
  obtain ⟨table, htable, hname⟩ := References.exists_table_of_plan htarget
  obtain ⟨head, rest, rfl, hspans⟩ := References.parse_spans h
  rcases List.mem_cons.1 htable with rfl | htable
  · exact (hspans.first.namedIn hname).mono fun i hi => List.mem_append_left _ hi
  · obtain ⟨j, hj, rfl⟩ := List.mem_map.1 htable
    exact (hspans.joins.namedIn hj hname).mono fun i hi => List.mem_append_right _ hi

theorem isTarget_of_plan {r : References} {room maxJoins start : Nat}
    {ps : List (Piece options.column)} {after : Option Item}
    (h : References.parse room maxJoins start (ps.map item) after = .ok r) (catalog : Catalog) :
    ∀ target ∈ (r.plan catalog).constrained, IsTarget target :=
  fun target htarget => isTarget_of_namedIn (namedIn_of_plan h catalog target htarget)

def endMarks {column : Text} : Option Text → List (Piece column) → List Mark
  | none, as => allMarks as
  | some target, as => whereMarks target as

theorem exists_endPassage (pre as post : List (Piece options.column))
    (hcolumn : IsFlagWord options.column) {carried : Option Text}
    (hcarried : ∀ target ∈ carried.toList, IsTarget target)
    (hitems : l.items = (pre ++ (as ++ post)).map item) :
    ∃ d, Passage Safe Calmer as d ∧ d.targets = carried.toList ∧ d.marks = endMarks carried as ∧
      Chunk.edits (sizeOf (allAtoms pre)) d.chunks = carried.toList.flatMap fun target =>
        whereEdits l pre.length (as.map item) (filterCondition options.column target) := by
  cases carried with
  | none =>
      exact ⟨_, (Passage.of_own as).mono (fun _ _ hr => hr) fun _ _ hr => hr.toCalmer, rfl, rfl,
        rfl⟩
  | some target =>
      obtain ⟨d, hd, htargets, hmarks, hedits⟩ :=
        exists_wherePassage hcolumn (hcarried target (by simp)) hitems
      exact ⟨d, hd, htargets, hmarks, by simpa using hedits⟩

def References.marks {column : Text} (r : References) (plan : FilterPlan)
    (os : List (Piece column)) : List Mark :=
  allMarks (os.take r.first.items.size) ++
    Join.listMarks (r.joins.zip plan.joins) (os.drop r.first.items.size)

structure Drafts {column : Text} (pre ps : List (Piece column)) (edit : LevelEdit) (d : Draft) :
    Prop where
  passage : Passage Safe Safe ps d
  targets : d.targets = edit.constrained
  edits : Chunk.edits (sizeOf (allAtoms pre)) d.chunks = edit.edits
  opens : opener d.written = opener (givens ps)

namespace Drafts

variable {column : Text} {pre ps qs : List (Piece column)} {edit more : LevelEdit} {d e : Draft}

theorem kept (pre ps : List (Piece column)) : Drafts pre ps ⟨[], []⟩ (Passage.kept ps) :=
  ⟨.of_own ps, rfl, rfl, opener_list ps⟩

theorem append (h : Drafts pre ps edit d) (h' : Drafts (pre ++ ps) qs more e) :
    Drafts pre (ps ++ qs)
      ⟨edit.edits ++ more.edits, edit.constrained ++ more.constrained⟩ (d ++ e) where
  passage := h.passage.append h'.passage
  targets := by simp [h.targets, h'.targets]
  edits := by
    rw [← h.edits, ← h'.edits]
    simp [Chunk.edits_append, allAtoms, h.passage.atoms]
  opens := by simp [opener_append, h.opens, h'.opens]

end Drafts

theorem exists_filteredPassage (post : List (Piece options.column))
    (hcolumn : IsFlagWord options.column) {r : References} {edits : List Edit}
    {room maxJoins : Nat} {after : Option Item} {fs os as : List (Piece options.column)}
    {f : Piece options.column} (hitems : l.items = (pre ++ (fs ++ f :: (os ++ as) ++ post)).map item)
    (hfrom : f.item.spells "FROM" = true)
    (hparse : References.parse room maxJoins (pre.length + fs.length + 1) (os.map item) after = .ok r)
    (hedits : r.edits l options.column (r.plan catalog) = .ok edits) :
    ∃ d, Drafts pre (fs ++ f :: (os ++ as))
        ⟨edits ++ (r.plan catalog).carried.toList.flatMap fun target =>
            whereEdits l (pre.length + fs.length + 1 + os.length) (as.map item)
              (filterCondition options.column target),
          (r.plan catalog).constrained⟩ d ∧
      d.marks = allMarks (fs ++ [f]) ++
        (r.marks (r.plan catalog) os ++ endMarks (r.plan catalog).carried as) := by
  have htargets := isTarget_of_plan hparse catalog
  obtain ⟨head, rest, hos, hspans⟩ := References.parse_spans hparse
  obtain ⟨hs, js, rfl, rfl, rfl⟩ := List.map_eq_append_iff.1 hos
  have hstart : Passage Safe Safe (fs ++ [f]) (Passage.kept (fs ++ [f])) := .of_own _
  have hhead : Passage Calmer Safe hs (Passage.kept hs) :=
    .of_settles hspans.first.settles
  obtain ⟨chunks, written, hjoins, hchunks, -⟩ := Join.exists_edits
    (pre ++ (fs ++ [f]) ++ hs) js (as ++ post) hcolumn (by simp) (by simpa using hitems)
    (by simpa [Nat.add_assoc, Nat.add_comm 1] using hspans.joins)
    (r.plan_joins_length catalog)
    (fun targets ht target h => htargets target
      (List.mem_append_left _ (List.mem_flatten.2 ⟨targets, ht, h⟩))) hedits
  obtain ⟨d, hend, hcarried, hmarks, hwhere⟩ := exists_endPassage
    (pre ++ (fs ++ f :: (hs ++ js))) as post hcolumn
    (fun target h => htargets target (List.mem_append_right _ h)) (by simpa using hitems)
  have hall := hstart.append (hhead.append (hjoins.append hend))
  have hps : fs ++ [f] ++ (hs ++ (js ++ as)) = fs ++ f :: (hs ++ js ++ as) := by simp
  have hlength : (pre ++ (fs ++ f :: (hs ++ js))).length =
      pre.length + fs.length + 1 + (hs ++ js).length := by
    simp
    omega
  rw [hps] at hall
  rw [hlength] at hwhere
  refine ⟨_, ⟨hall, ?_, ?_, ?_⟩, ?_⟩
  · simp [Passage.kept, hcarried, FilterPlan.constrained]
  · rw [← hwhere, ← hchunks]
    simp [Chunk.edits_append, Passage.kept, Chunk.edits, allAtoms, hjoins.atoms,
      Nat.add_assoc]
  · obtain ⟨t, ht, -, hgiven, hwritten, -⟩ := Passage.exists_keyword hfrom
    have hf : ∀ us, opener (t :: us) = some t.bare := opener_of_word (Token.kind_of_spells ht)
    simp [Passage.kept, writtens_cons, givens_cons, hwritten, hgiven, opener_append, hf,
      opener_list]
  · simp only [Draft.marks_append, hmarks, Passage.kept, References.marks, hspans.first.range,
      ItemRange.size_mk, List.length_map, List.append_assoc]
    rw [List.take_left, List.drop_left]

theorem BodyParts.exists_pieces {column : Text} {bs : List (Piece column)}
    {front items after : List Item} {i : Item} (h : BodyParts (bs.map item) front i items after) :
    ∃ fs f os as, bs = fs ++ f :: (os ++ as) ∧ front = fs.map item ∧ i = f.item ∧
      items = os.map item ∧ after = as.map item := by
  obtain ⟨fs, f, ts, rfl, rfl, rfl, hts⟩ := exists_split h.body_eq
  obtain ⟨os, as, rfl, rfl, rfl⟩ := List.map_eq_append_iff.1 hts.symm
  exact ⟨fs, f, os, as, rfl, rfl, rfl, rfl, rfl⟩

theorem exists_bodyPassage (post : List (Piece options.column))
    (hcolumn : IsFlagWord options.column)
    (hitems : l.items = (pre ++ (bs ++ post)).map item)
    (hedit : bodyEdit catalog options l pre.length (bs.map item) = .ok edit) :
    ∃ d, Drafts pre bs edit d := by
  cases bodyEdit_ends hedit with
  | noFrom | unnamed => exact ⟨_, .kept pre bs⟩
  | filtered hparts hparse hedits =>
      obtain ⟨fs, f, os, as, rfl, rfl, rfl, rfl, rfl⟩ := hparts.exists_pieces
      rw [List.length_map] at hparse
      obtain ⟨d, hd, -⟩ :=
        exists_filteredPassage post hcolumn hitems hparts.spells_from hparse hedits
      rw [List.length_map, List.length_map]
      exact ⟨d, hd⟩

theorem exists_bodiesPassage (pre bs : List (Piece options.column))
    (hcolumn : IsFlagWord options.column)
    (hitems : l.items = (pre ++ bs).map item)
    (hedit : bodyEdits catalog options l pre.length (bodies (bs.map item)) = .ok edit) :
    ∃ d, Drafts pre bs edit d := by
  generalize hmap : bs.map item = items at hedit
  fun_induction bodies items generalizing pre bs edit with
  | case1 items body hbreak =>
      obtain ⟨first, hfirst, hedit⟩ := exists_of_bind_ok hedit
      cases hedit
      obtain rfl : bs.map item = body := hmap.trans (eq_of_breakAt hbreak)
      simpa using exists_bodyPassage [] hcolumn (by simpa using hitems) hfirst
  | case2 items body u rest hbreak ih =>
      obtain ⟨fs, u, rs, rfl, rfl, rfl, rfl⟩ :=
        exists_split (hmap.trans (eq_append_of_breakAt hbreak))
      obtain ⟨first, hfirst, hedit⟩ := exists_of_bind_ok hedit
      obtain ⟨more, hmore, hedit⟩ := exists_of_bind_ok hedit
      cases hedit
      obtain ⟨d, hd⟩ := exists_bodyPassage (u :: rs) hcolumn (by simpa using hitems) hfirst
      obtain ⟨e, he⟩ := ih (pre ++ fs ++ [u]) rs (by simpa using hitems) rfl
        (by simpa [Nat.add_assoc] using hmore)
      exact ⟨_, hd.append ((Drafts.kept (pre ++ fs) [u]).append he)⟩

end Bodies

end SoftDelete
