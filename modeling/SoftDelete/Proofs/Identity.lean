import SoftDelete.Proofs.Isolation.Swap
import SoftDelete.Proofs.Policy

namespace SoftDelete

def namesIn (sql : Text) : List Text :=
  match lex sql with
  | .ok l => (l.tokens.filter Token.canName).map fun t =>
      t.text.filter fun c => (Quote.ofMark? c).isNone
  | .error _ => []

section Edits

variable {catalog : Catalog} {options : Options} {l : Level} {edit : LevelEdit}

theorem References.edits_eq_nil {r : References} {column : Text}
    (hnone : (r.plan catalog).joins.flatten = []) : r.edits l column (r.plan catalog) = .ok [] := by
  have hpairs : ((r.joins.zip (r.plan catalog).joins).filter fun pair => !pair.2.isEmpty) = [] := by
    apply List.filter_eq_nil_iff.2
    intro pair hpair
    have hempty := List.flatten_eq_nil_iff.1 hnone pair.2 (List.of_mem_zip hpair).2
    simp [hempty]
  rw [References.edits, hpairs]
  rfl

theorem References.edits_of_unconstrained {r : References} {column : Text} {edits : List Edit}
    (hnone : (r.plan catalog).joins.flatten = [])
    (h : r.edits l column (r.plan catalog) = .ok edits) : edits = [] := by
  rw [r.edits_eq_nil hnone] at h
  exact (Except.ok.inj h).symm

theorem BodyEnds.edits_of_unconstrained {start : Nat} {body : List Item}
    (h : BodyEnds catalog options l start body edit) (hnone : edit.constrained = []) :
    edit.edits = [] := by
  cases h with
  | noFrom | unnamed => rfl
  | filtered _ _ hedits =>
      obtain ⟨hjoins, hcarried⟩ := List.append_eq_nil_iff.1 hnone
      rw [References.edits_of_unconstrained hjoins hedits, hcarried]
      rfl

theorem bodyEdits_of_unconstrained {start : Nat} {bs : List (List Item)}
    (h : bodyEdits catalog options l start bs = .ok edit) (hnone : edit.constrained = []) :
    edit.edits = [] := by
  induction bs generalizing start edit with
  | nil =>
      cases h
      rfl
  | cons body later ih =>
      obtain ⟨first, hfirst, h⟩ := exists_of_bind_ok h
      obtain ⟨more, hmore, h⟩ := exists_of_bind_ok h
      cases h
      obtain ⟨hbody, hlater⟩ := List.append_eq_nil_iff.1 hnone
      rw [(bodyEdit_ends hfirst).edits_of_unconstrained hbody, ih hmore hlater]
      rfl

end Edits

section Verbatim

variable {catalog : Catalog} {options : Options}

theorem Level.outputWith_of_verbatim {l : Level} (hsolid : ∀ i ∈ l.items, i.text ≠ [])
    (hitems : ∀ i ∈ l.items, i.output = i.text) : l.outputWith [] = l.source := by
  rw [outputWith_nil hsolid, source]
  refine congrArg (· ++ l.tail) (List.flatMap_congr fun i hi => ?_)
  rw [hitems i hi, Item.source]

theorem itemsOf_verbatim {nested : Nat → Text → Attempt Text} {offset : Nat} {segs : List Segment}
    {items : List Item}
    (hnested : ∀ {start s out}, (nested start s).result = .ok out →
      (nested start s).notes.constrained = [] → out = s)
    (hsegs : ∀ opening inner closing, .subselect opening inner closing ∈ segs →
      opening.text = ['('] ∧ closing.text = [')'])
    (h : (itemsOf nested offset segs).result = .ok items)
    (hnone : (itemsOf nested offset segs).notes.constrained = []) :
    items.flatMap Item.source = segs.flatMap Segment.source ∧ ∀ i ∈ items, i.output = i.text := by
  induction segs generalizing offset items with
  | nil =>
      cases h
      simp
  | cons s segs ih =>
      have hsegs' := fun opening inner closing hmem =>
        hsegs opening inner closing (List.mem_cons_of_mem s hmem)
      cases s with
      | token t =>
          obtain ⟨later, hlater, rfl, hnotes⟩ := itemsOf_token h
          rw [hnotes] at hnone
          obtain ⟨hsource, houtput⟩ := ih hsegs' hlater hnone
          refine ⟨?_, by simpa [Item.output, Item.text] using houtput⟩
          simp [hsource, Item.source, Item.gap, Item.text, Segment.source, Segment.tokens,
            Token.source]
      | subselect opening inner closing =>
          obtain ⟨start, stop, body, later, hbody, hlater, rfl, hnotes⟩ := itemsOf_subselect h
          rw [hnotes] at hnone
          obtain ⟨hinner, hrest⟩ := List.append_eq_nil_iff.1 hnone
          obtain ⟨hsource, houtput⟩ := ih hsegs' hlater hrest
          obtain ⟨hopening, hclosing⟩ := hsegs opening inner closing (by simp)
          have hkept := hnested hbody hinner
          refine ⟨?_, ?_⟩
          · simp [hsource, Item.source, Item.gap, Item.text, Segment.source, Segment.tokens,
              Token.source]
          · simpa [Item.output, Item.text, Token.source, hopening, hclosing, hkept] using houtput

theorem filterLevel_verbatim_step {room depth offset : Nat} {sql out : Text}
    (hnested : ∀ {start s out}, (nestedFilter catalog options room depth start s).result = .ok out →
      (nestedFilter catalog options room depth start s).notes.constrained = [] → out = s)
    (h : (filterLevel catalog options room depth offset sql).result = .ok out)
    (hnone : (filterLevel catalog options room depth offset sql).notes.constrained = []) :
    out = sql := by
  obtain ⟨l, items, notes, hlex, hitems, hends, hnotes⟩ := filterLevel_cases h
  rw [hnotes] at hnone
  obtain ⟨hbodies, hlevel⟩ := List.append_eq_nil_iff.1 hnone
  have hcut := CutInto.of_lex hlex
  have hsource := hcut.source_eq
  obtain ⟨hitems', houtput⟩ := itemsOf_verbatim hnested (fun opening inner closing hmem => by
    obtain ⟨before, after, hsegs⟩ := List.append_of_mem hmem
    rw [hsegs] at hcut
    exact hcut.parentheses.2) hitems hbodies
  have hsolid : ∀ i ∈ items, i.text ≠ [] := itemsOf_solid hitems fun t ht => by
    obtain ⟨r, hr⟩ := hcut.stands ht
    exact hr.lexeme.text_ne_nil
  have hkept : ∀ tail, Level.outputWith ⟨items, tail⟩ [] = Level.source ⟨items, tail⟩ := fun tail =>
    Level.outputWith_of_verbatim hsolid houtput
  rw [sourceOf_append, sourceOf_segments] at hsource
  generalize (segments l.tokens).2 = unclosed at hends hsource
  cases hends with
  | unclosed p =>
      rw [hkept, hsource]
      simp [Level.source, hitems']
  | untouched hnames =>
      rw [hkept, hsource]
      simp [Level.source, hitems']
  | @filtered edit hnames hedit =>
      rw [bodyEdits_of_unconstrained hedit hlevel, hkept, hsource]
      simp [Level.source, hitems']

theorem filterLevel_verbatim {room depth offset : Nat} {sql out : Text}
    (h : (filterLevel catalog options room depth offset sql).result = .ok out)
    (hnone : (filterLevel catalog options room depth offset sql).notes.constrained = []) :
    out = sql := by
  induction room generalizing depth offset sql out with
  | zero =>
      refine filterLevel_verbatim_step (fun {start s out} hbody _ => ?_) h hnone
      exact (Except.ok.inj hbody).symm
  | succ room ih =>
      refine filterLevel_verbatim_step ?_ h hnone
      intro start s out
      exact ih

end Verbatim

section Unregistered

variable {catalog : Catalog} {options : Options}

def Unregistered (catalog : Catalog) (ts : List Token) : Prop :=
  ∀ t ∈ ts, (Item.token t).namesTable catalog = false

theorem unregistered_of_namesIn {sql : Text} {l : Lexed} (hlex : lex sql = .ok l)
    (h : ∀ name ∈ namesIn sql, name ∉ catalog.names) : Unregistered catalog l.tokens := by
  intro t ht
  rw [namesIn, hlex] at h
  by_cases hname : t.canName = true
  · have hfree := h _ (List.mem_map_of_mem (List.mem_filter.2 ⟨ht, hname⟩))
    rw [← Catalog.contains_iff] at hfree
    simpa [Item.namesTable, hname] using hfree
  · simp [Item.namesTable, hname]

theorem itemsOf_unregistered {nested : Nat → Text → Attempt Text} {offset : Nat}
    {segs : List Segment} {items : List Item}
    (hnested : ∀ {start opening inner closing out}, .subselect opening inner closing ∈ segs →
      (nested start (sourceOf inner ++ closing.gap)).result = .ok out →
        (nested start (sourceOf inner ++ closing.gap)).notes.constrained = [])
    (hsegs : Unregistered catalog (segs.flatMap Segment.tokens))
    (h : (itemsOf nested offset segs).result = .ok items) :
    (itemsOf nested offset segs).notes.constrained = [] ∧
      items.any (Item.namesTable catalog) = false := by
  induction segs generalizing offset items with
  | nil =>
      cases h
      exact ⟨rfl, rfl⟩
  | cons s segs ih =>
      have hlater : ∀ {start items}, (itemsOf nested start segs).result = .ok items → _ :=
        ih (fun hmem => hnested (List.mem_cons_of_mem s hmem))
          fun t ht => hsegs t (List.mem_append_right s.tokens ht)
      cases s with
      | token t =>
          obtain ⟨later, hrest, rfl, hnotes⟩ := itemsOf_token h
          have ht : (Item.token t).namesTable catalog = false := hsegs t (by simp [Segment.tokens])
          rw [hnotes, List.any_cons, ht]
          exact hlater hrest
      | subselect opening inner closing =>
          obtain ⟨start, stop, body, later, hbody, hrest, rfl, hnotes⟩ := itemsOf_subselect h
          have hinner := hnested (List.mem_cons_self ..) hbody
          simpa [hnotes, Notes.append_def, hinner, Item.namesTable] using hlater hrest

theorem filterLevel_unregistered_step {room depth offset : Nat} {sql out : Text} {l : Lexed}
    (hnested : ∀ {start s out l}, lex s = .ok l → Unregistered catalog l.tokens →
      (nestedFilter catalog options room depth start s).result = .ok out →
        (nestedFilter catalog options room depth start s).notes.constrained = [])
    (hlex : lex sql = .ok l) (hnames : Unregistered catalog l.tokens)
    (h : (filterLevel catalog options room depth offset sql).result = .ok out) :
    (filterLevel catalog options room depth offset sql).notes.constrained = [] := by
  obtain ⟨l', items, notes, hlex', hitems, hends, hnotes⟩ := filterLevel_cases h
  obtain rfl : l = l' := Except.ok.inj (hlex.symm.trans hlex')
  have hsegs : Unregistered catalog ((segments l.tokens).1.flatMap Segment.tokens) := by
    intro t ht
    apply hnames t
    rw [← segments_append l.tokens]
    exact List.mem_append_left _ ht
  obtain ⟨hbodies, hnone⟩ := itemsOf_unregistered (fun {start opening inner closing out} hmem => by
    -- The body is read as tokens that the level around it has as well.
    obtain ⟨front, dashes, rfl, -, hlexed⟩ := (CutInto.of_lex hlex).lex_body hmem
    refine hnested hlexed fun t ht => hsegs t (List.mem_flatMap.2 ⟨_, hmem, ?_⟩)
    simp [Segment.tokens, ht]) hsegs hitems
  rw [hnotes, Notes.append_def, hbodies]
  generalize (segments l.tokens).2 = unclosed at hends
  cases hends with
  | unclosed | untouched => rfl
  | filtered hnames hedit => exact absurd hnames (by simpa [Level.namesTable] using hnone)

theorem filterLevel_unregistered {room depth offset : Nat} {sql out : Text} {l : Lexed}
    (hlex : lex sql = .ok l) (hnames : Unregistered catalog l.tokens)
    (h : (filterLevel catalog options room depth offset sql).result = .ok out) :
    (filterLevel catalog options room depth offset sql).notes.constrained = [] := by
  induction room generalizing depth offset sql out l with
  | zero =>
      refine filterLevel_unregistered_step (fun {start s out l} _ _ hbody => ?_) hlex hnames h
      rfl
  | succ room ih => exact filterLevel_unregistered_step ih hlex hnames h

end Unregistered

namespace Policy

theorem filterWith_unregistered (parse : Text → Except String Unit) (p : Policy) (sql : Text)
    (h : ∀ name ∈ namesIn sql, name ∉ p.catalog.names) :
    (p.filterWith parse sql).result = sql ∧ (p.filterWith parse sql).constrained = [] ∧
      (p.filterWith parse sql).outcome ≠ .filtered := by
  have hwhole : ∀ {out}, (p.filterWhole sql).result = .ok out →
      (p.filterWhole sql).notes.constrained = [] := by
    intro out hout
    obtain ⟨l, -, -, hlex, -⟩ := filterLevel_cases hout
    exact filterLevel_unregistered hlex (unregistered_of_namesIn hlex h) hout
  have hends := p.filterWith_ends parse sql
  generalize p.filterWith parse sql = f at hends ⊢
  cases hends with
  | notSelect | explicitCondition | failed => exact ⟨rfl, rfl, nofun⟩
  | filtered _ _ hout hne => exact absurd (filterLevel_verbatim hout (hwhole hout)) hne
  | kept _ _ hout =>
      refine ⟨rfl, hwhole hout, ?_⟩
      dsimp only
      split <;> nofun

theorem filterWith_unregistered_unclosed :
    let p : Policy := ⟨⟨["hist_a".toList]⟩, ⟨"deleted".toList, 1, 8, true⟩⟩
    let sql := "SELECT * FROM (SELECT (SELECT 1) FROM `plain`) q /* hist_a */, (SELECT x -- ".toList
    (∀ name ∈ namesIn sql, name ∉ p.catalog.names) ∧
      (p.filterWith (fun _ => .ok ()) sql).result = sql ∧
      (p.filterWith (fun _ => .ok ()) sql).constrained = [] ∧
      (p.filterWith (fun _ => .ok ()) sql).outcome ≠ .filtered := by
  intro p sql
  have hnames : ∀ name ∈ namesIn sql, name ∉ p.catalog.names := by decide +kernel
  exact ⟨hnames, p.filterWith_unregistered (fun _ => .ok ()) sql hnames⟩

end Policy

end SoftDelete
