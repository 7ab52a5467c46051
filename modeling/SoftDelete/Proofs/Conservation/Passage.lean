import SoftDelete.Proofs.Conservation.Mark
import SoftDelete.Proofs.Join.Layout
import SoftDelete.Proofs.Sql.Rendering

namespace SoftDelete

def opener (ts : List Token) : Option Token :=
  (ts.find? (·.kind != .lparen)).map Token.bare

theorem opener_append (ts us : List Token) : opener (ts ++ us) = (opener ts).or (opener us) := by
  simp only [opener, List.find?_append]
  cases ts.find? (·.kind != .lparen) <;> rfl

structure Piece (column : Text) where
  item : Item
  given : List Token
  written : List Token
  marks : List Mark
  made : Made column given written marks
  source : sourceOf given = item.source
  output : sourceOf written = item.gap ++ item.output
  front : (given.head?.map Token.gap) = some item.gap ∧ (written.head?.map Token.gap) = some item.gap
  opens : opener written = opener given
  stands : ∀ t ∈ given, ∃ r, t.StandsBefore r
  flows : Flows Safe Safe given written
  settled : item.kind? ≠ some .operator → Flows Calmer Safe given written
  ofToken : ∀ t, item = .token t → given = [t] ∧ written = [t] ∧ marks = [.own t]

namespace Piece

variable {column : Text}

def ofOwn (t : Token) (ht : ∃ r, t.StandsBefore r) : Piece column where
  item := .token t
  given := [t]
  written := [t]
  marks := [.own t]
  made := .own [t]
  source := by simp [Item.source, Item.gap, Item.text, Token.source]
  output := by simp [Item.output, Item.gap, Token.source]
  front := ⟨rfl, rfl⟩
  opens := rfl
  stands u hu := by
    obtain rfl := List.mem_singleton.1 hu
    exact ht
  flows := .own t
  settled h := .settled fun hkind => h (congrArg some hkind)
  ofToken u hu := by
    cases hu
    exact ⟨rfl, rfl, rfl⟩

def givens (ps : List (Piece column)) : List Token :=
  ps.flatMap given

def writtens (ps : List (Piece column)) : List Token :=
  ps.flatMap written

def allMarks (ps : List (Piece column)) : List Mark :=
  ps.flatMap marks

def allAtoms (ps : List (Piece column)) : List Atom :=
  ps.flatMap fun p => p.item.atoms

@[simp] theorem givens_nil : givens ([] : List (Piece column)) = [] := rfl

@[simp] theorem writtens_nil : writtens ([] : List (Piece column)) = [] := rfl

theorem givens_cons (p : Piece column) (ps : List (Piece column)) :
    givens (p :: ps) = p.given ++ givens ps := rfl

theorem writtens_cons (p : Piece column) (ps : List (Piece column)) :
    writtens (p :: ps) = p.written ++ writtens ps := rfl

@[simp] theorem givens_append (ps qs : List (Piece column)) :
    givens (ps ++ qs) = givens ps ++ givens qs := by
  simp [givens]

@[simp] theorem writtens_append (ps qs : List (Piece column)) :
    writtens (ps ++ qs) = writtens ps ++ writtens qs := by
  simp [writtens]

theorem exists_split {ps : List (Piece column)} {front rest : List Item} {i : Item}
    (h : ps.map item = front ++ i :: rest) :
    ∃ fs p rs, ps = fs ++ p :: rs ∧ front = fs.map item ∧ i = p.item ∧ rest = rs.map item := by
  obtain ⟨fs, later, rfl, rfl, hlater⟩ := List.map_eq_append_iff.1 h
  obtain ⟨p, rs, rfl, rfl, rfl⟩ := List.map_eq_cons_iff.1 hlater
  exact ⟨fs, p, rs, rfl, rfl, rfl, rfl⟩

theorem made_list (ps : List (Piece column)) :
    Made column (givens ps) (writtens ps) (allMarks ps) := by
  induction ps with
  | nil => exact .own []
  | cons p ps ih => exact p.made.append ih

theorem flows_list (ps : List (Piece column)) : Flows Safe Safe (givens ps) (writtens ps) := by
  induction ps with
  | nil => exact .nil
  | cons p ps ih => exact p.flows.append ih

theorem flows_settles {ps : List (Piece column)} (h : Settles (ps.map item)) :
    Flows Calmer Safe (givens ps) (writtens ps) := by
  obtain ⟨front, i, hsplit, hi⟩ := h
  obtain ⟨ps, q, qs, rfl, rfl, rfl, hnil⟩ := exists_split hsplit
  obtain rfl := List.map_eq_nil_iff.1 hnil.symm
  have hlast := (flows_list ps).append (q.settled hi)
  simpa [givens, writtens] using hlast

theorem opener_list (ps : List (Piece column)) : opener (writtens ps) = opener (givens ps) := by
  induction ps with
  | nil => rfl
  | cons p ps ih =>
      change opener (p.written ++ writtens ps) = opener (p.given ++ givens ps)
      rw [opener_append, opener_append, p.opens, ih]

theorem atoms_list (ps : List (Piece column)) :
    (ps.map item).flatMap Item.atoms = allAtoms ps := by
  simp [allAtoms, List.flatMap_map]

theorem sourceOf_writtens (ps : List (Piece column)) :
    sourceOf (writtens ps) = (allAtoms ps).flatMap Atom.output := by
  induction ps with
  | nil => rfl
  | cons p ps ih =>
      change sourceOf (p.written ++ writtens ps) = (p.item.atoms ++ allAtoms ps).flatMap Atom.output
      rw [sourceOf_append, List.flatMap_append, p.output, ih, Item.output_atoms]

end Piece

structure Draft where
  chunks : List Chunk
  written : List Token
  marks : List Mark
  targets : List Text

instance : Append Draft where
  append a b := ⟨a.chunks ++ b.chunks, a.written ++ b.written, a.marks ++ b.marks,
    a.targets ++ b.targets⟩

namespace Draft

@[simp] theorem chunks_append (a b : Draft) : (a ++ b).chunks = a.chunks ++ b.chunks := rfl

@[simp] theorem written_append (a b : Draft) : (a ++ b).written = a.written ++ b.written := rfl

@[simp] theorem marks_append (a b : Draft) : (a ++ b).marks = a.marks ++ b.marks := rfl

@[simp] theorem targets_append (a b : Draft) : (a ++ b).targets = a.targets ++ b.targets := rfl

end Draft

open Piece in
structure Passage {column : Text} (P Q : Text → Text → Prop) (ps : List (Piece column))
    (d : Draft) : Prop where
  atoms : d.chunks.flatMap Chunk.atoms = allAtoms ps
  output : sourceOf d.written = d.chunks.flatMap Chunk.output
  flows : Flows P Q (givens ps) d.written
  made : Made column (givens ps) d.written d.marks
  targets : (targetsOf d.marks).Perm (targetsOf (allMarks ps) ++ d.targets)

namespace Passage

open Piece

variable {column : Text} {P Q R : Text → Text → Prop} {ps qs : List (Piece column)} {d e : Draft}

theorem append (h : Passage Q R ps d) (h' : Passage P Q qs e) :
    Passage P R (ps ++ qs) (d ++ e) where
  atoms := by simp [h.atoms, h'.atoms, allAtoms]
  output := by simp [h.output, h'.output]
  flows := by
    rw [givens_append]
    exact h.flows.append h'.flows
  made := by
    rw [givens_append]
    exact h.made.append h'.made
  targets := by
    rw [Draft.marks_append, Draft.targets_append, targetsOf_append, allMarks, List.flatMap_append,
      targetsOf_append]
    refine (h.targets.append h'.targets).trans ?_
    simp only [List.append_assoc]
    exact (List.perm_append_comm_assoc _ _ _).append_left _

theorem nil : Passage P P ([] : List (Piece column)) ⟨[], [], [], []⟩ where
  atoms := rfl
  output := rfl
  flows := .nil
  made := .own []
  targets := .nil

theorem mono {P' Q' : Text → Text → Prop} (h : Passage P Q ps d) (hP : ∀ r r', P' r r' → P r r')
    (hQ : ∀ r r', Q r r' → Q' r r') : Passage P' Q' ps d :=
  { h with flows := h.flows.mono hP hQ }

theorem of_apart (h : Passage Apart Q ps d) : Passage P Q ps d :=
  h.mono (fun _ _ _ => trivial) fun _ _ hr => hr

def kept (ps : List (Piece column)) : Draft :=
  ⟨[.kept (allAtoms ps)], writtens ps, allMarks ps, []⟩

theorem of_kept (hflows : Flows P Q (givens ps) (writtens ps)) : Passage P Q ps (kept ps) where
  atoms := by simp [kept, Chunk.atoms]
  output := by simp [kept, Chunk.output, sourceOf_writtens]
  flows := hflows
  made := made_list ps
  targets := by simp [kept]

theorem of_own (ps : List (Piece column)) : Passage Safe Safe ps (kept ps) :=
  of_kept (flows_list ps)

theorem of_settles {ps : List (Piece column)} (h : Settles (ps.map item)) :
    Passage Calmer Safe ps (kept ps) :=
  of_kept (flows_settles h)

end Passage

namespace Flows

variable {P Q : Text → Text → Prop} {given written : List Token}

theorem opened {gap : Text} (h : Flows P Q given written)
    (hgiven : given.head?.map Token.gap = some gap) :
    Flows P Calmer given (⟨gap, .lparen, ['(']⟩ :: regap [] written) := by
  cases given with
  | nil => cases hgiven
  | cons t ts =>
      obtain rfl : t.gap = gap := by simpa using hgiven
      constructor
      · intro r r' hr hread
        exact ⟨⟨hread.1.gap, .lparen _⟩, readable_regap closedGap_nil (h.readable hr hread)⟩
      · intro r r' _ hread
        simp only [sourceOf_cons, Token.source, List.append_assoc]
        by_cases hgap : t.gap = []
        · rw [hgap]
          exact .of_neutral rfl (by decide) _ _
        · exact (Safe.of_gap hread.1.gap hgap _ _).toCalmer

theorem closed {us : List Token} (h : ∀ r, Readable us r) :
    Flows Apart Safe [] (Token.closing :: us) where
  readable _ _ := ⟨⟨closedGap_nil, .rparen _⟩, h _⟩
  front _ _ := .of_parenthesis (.inr rfl) _ _

theorem spaced (h : Flows P Q given written) (hne : written ≠ []) :
    Flows P Parted given (regap [' '] written) where
  readable hr hread := readable_regap (closedGap_blank (by decide)) (h.readable hr hread)
  front _ _ := by
    cases written with
    | nil => exact absurd rfl hne
    | cons t ts => exact ⟨_, by rw [sourceOf_regap]; rfl⟩

end Flows

namespace Piece

variable {column : Text}

theorem writtens_ne_nil {ps : List (Piece column)} (h : ps ≠ []) : writtens ps ≠ [] := by
  cases ps with
  | nil => exact absurd rfl h
  | cons p ps =>
      intro hnil
      have hfront := p.front.2
      rw [(List.append_eq_nil_iff.1 hnil).1] at hfront
      cases hfront

theorem exists_given (p : Piece column) : ∃ t ts, p.given = t :: ts ∧ t.gap = p.item.gap := by
  have hfront := p.front.1
  cases hgiven : p.given with
  | nil =>
      rw [hgiven] at hfront
      cases hfront
  | cons t ts =>
      rw [hgiven] at hfront
      exact ⟨t, ts, rfl, by simpa using hfront⟩

theorem givens_head (p : Piece column) (ps : List (Piece column)) :
    (givens (p :: ps)).head?.map Token.gap = some p.item.gap := by
  obtain ⟨t, ts, hgiven, hgap⟩ := p.exists_given
  simp [givens, hgiven, hgap]

theorem sourceOf_regap (p : Piece column) (ps : List (Piece column)) (g : Text) :
    sourceOf (regap g (writtens (p :: ps))) =
      g ++ (p.item.core :: allAtoms ps).flatMap Atom.output := by
  have hfront := p.front.2
  have hsource := sourceOf_writtens (p :: ps)
  cases hwritten : p.written with
  | nil =>
      rw [hwritten] at hfront
      cases hfront
  | cons t ts =>
      rw [hwritten] at hfront
      obtain hgap : t.gap = p.item.gap := by simpa using hfront
      have hall : writtens (p :: ps) = t :: (ts ++ writtens ps) := by
        simp [writtens, hwritten]
      rw [hall] at hsource ⊢
      rw [SoftDelete.sourceOf_regap]
      simpa [Token.source, hgap, allAtoms, Item.atoms_eq, Atom.output] using hsource

theorem output_core (p : Piece column) (ps : List (Piece column)) :
    (p.item.core :: allAtoms ps).flatMap Atom.output = outputOf ((p :: ps).map item) := by
  rw [List.map_cons, outputOf_cons, atoms_list]

end Piece

theorem spaced_word {word : String} {ts : List Token} (hword : Lexeme .word word.toList [])
    (h : Spaced ts) : Spaced (Token.spaced word :: ts) where
  solid r := by
    obtain ⟨s, hs⟩ := h.space
    refine ⟨⟨closedGap_blank (by decide), ?_⟩, h.solid r⟩
    rw [hs]
    exact hword.before_neutral rfl (by decide) _
  space := ⟨word.toList ++ sourceOf ts, rfl⟩

namespace Passage

open Piece

variable {column target : Text}

theorem exists_newWhere (hcolumn : IsFlagWord column) (htarget : IsTarget target) :
    ∃ written, Passage Apart Parted ([] : List (Piece column))
      ⟨[.put [] (" WHERE ".toList ++ filterCondition column target)], written,
        [.keyword "WHERE", .filter target], [target]⟩ := by
  obtain ⟨ts, hspaced, hsource, hbare⟩ := exists_filterTokens hcolumn htarget
  have hwhere : Lexeme .word "WHERE".toList [] := .intro (by decide) (by decide)
  refine ⟨Token.spaced "WHERE" :: ts, ?_⟩
  constructor
  · rfl
  · simp [hsource, Token.source, Token.spaced, Chunk.output]
  · exact (spaced_word hwhere hspaced).flows []
  · refine ⟨rfl, ?_, .newWhere target, by simpa using htarget, fun h => by simp at h⟩
    simp [hbare, Mark.written, Mark.added, Token.bare, Token.spaced, Token.word]
  · rfl

theorem exists_keyword {p : Piece column} {word : String} (h : p.item.spells word = true) :
    ∃ t, t.spells word = true ∧ p.item = .token t ∧ p.given = [t] ∧ p.written = [t] ∧
      p.marks = [.own t] ∧ Flows Calmer Safe [t] [t] := by
  cases hitem : p.item with
  | subselect gap text body =>
      rw [hitem] at h
      cases h
  | token t =>
      rw [hitem] at h
      obtain ⟨hgiven, hwritten, hmarks⟩ := p.ofToken t hitem
      refine ⟨t, h, rfl, hgiven, hwritten, hmarks, .settled ?_⟩
      simp [Token.kind_of_spells h]

theorem exists_emptyWhere (hcolumn : IsFlagWord column) (htarget : IsTarget target)
    {p : Piece column} (hp : p.item.spells "WHERE" = true) :
    ∃ written, Passage Apart Safe [p]
      ⟨[.kept p.item.atoms, .put [] (' ' :: filterCondition column target)], written,
        p.marks ++ [.filter target], [target]⟩ := by
  obtain ⟨ts, hspaced, hsource, hbare⟩ := exists_filterTokens hcolumn htarget
  obtain ⟨t, ht, hitem, hgiven, hwritten, hmarks, hflows⟩ := exists_keyword hp
  rw [hmarks]
  refine ⟨[t] ++ ts, ?_⟩
  constructor
  · simp [Chunk.atoms, allAtoms]
  · simp [hsource, hitem, Chunk.output, Item.atoms, Atom.output, Token.source]
  · simpa [givens, hgiven] using hflows.append (hspaced.calmer [])
  · refine ⟨by simp [givens, hgiven, Mark.given], ?_, .emptyWhere ht target,
      by simpa using htarget, fun h => by simp at h⟩
    simp [hbare, Mark.written, Mark.added]
  · simp [allMarks, hmarks]

theorem exists_ownWhere (hcolumn : IsFlagWord column) (htarget : IsTarget target)
    {p : Piece column} (q : Piece column) (qs : List (Piece column))
    (hp : p.item.spells "WHERE" = true) :
    ∃ written, Passage Apart Safe (p :: q :: qs)
      ⟨[.kept (p.item.atoms ++ [.plain q.item.gap]), .put [] ['('],
        .kept (q.item.core :: allAtoms qs),
        .put [] (") AND ".toList ++ filterCondition column target)], written,
        p.marks ++ .opening :: (allMarks (q :: qs) ++ [.closing, .keyword "AND", .filter target]),
        [target]⟩ := by
  obtain ⟨ts, hspaced, hsource, hbare⟩ := exists_filterTokens hcolumn htarget
  obtain ⟨t, ht, hitem, hgiven, hwritten, hmarks, hflows⟩ := exists_keyword hp
  have hand : Lexeme .word "AND".toList [] := .intro (by decide) (by decide)
  have htail := Flows.closed (spaced_word hand hspaced).solid
  have hown := ((flows_list (q :: qs)).append htail).opened
    (by simpa using givens_head q qs)
  have hne : writtens (q :: qs) ≠ [] := writtens_ne_nil (by simp)
  rw [List.append_nil, regap_append hne] at hown
  rw [hmarks]
  refine ⟨[t] ++ (⟨q.item.gap, .lparen, ['(']⟩ :: (regap [] (writtens (q :: qs)) ++
    (Token.closing :: Token.spaced "AND" :: ts))), ?_⟩
  have hmade := made_list (q :: qs)
  have hgivens : givens (p :: q :: qs) = t :: givens (q :: qs) := by simp [givens, hgiven]
  have hall : allMarks (p :: q :: qs) = .own t :: allMarks (q :: qs) := by simp [allMarks, hmarks]
  constructor
  · simp [Chunk.atoms, allAtoms, Item.atoms_eq]
  · simp [hsource, hitem, Chunk.output, Item.atoms, Atom.output, Token.source,
      Piece.sourceOf_regap, Token.closing, Token.spaced]
  · rw [hgivens]
    exact hflows.append hown
  · refine ⟨?_, ?_, .ownWhere ht hmade.attached target, ?_, fun h => by simp at h⟩
    · simp [hgivens, hmade.givens, Mark.given]
    · simp [hbare, map_bare_regap, hmade.writtens, Mark.written, Mark.added, Token.bare,
        Token.opening, Token.closing, Token.spaced, Token.word]
    · intro u hu
      have hu : u ∈ targetsOf (allMarks (q :: qs)) ∨ u = target := by simpa using hu
      rcases hu with hu | rfl
      · exact hmade.named u hu
      · exact htarget
  · simp [hall]

end Passage

end SoftDelete
