import SoftDelete.Proofs.Isolation.Layout

namespace SoftDelete

def cutWords : List String :=
  "FROM" :: "UNION" :: "WHERE" :: clauseHeads.flatten

structure Item.SameCuts (f g : Item) : Prop where
  kind? : f.kind? = g.kind?
  spells : ∀ word ∈ cutWords, f.spells word = g.spells word

namespace Item.SameCuts

variable {f g : Item}

theorem of_alike (h : f.Alike g) : f.SameCuts g :=
  ⟨h.looks.kind?, fun word _ => h.looks.spells word⟩

theorem depthAfter (h : f.SameCuts g) (depth : Nat) : f.depthAfter depth = g.depthAfter depth := by
  rw [Item.depthAfter, Item.depthAfter, h.kind?]

theorem hasKind (h : f.SameCuts g) (o : Option Item) (kind : Token.Kind) :
    (o.getD f).hasKind kind = (o.getD g).hasKind kind := by
  cases o with
  | none => rw [Option.getD_none, Option.getD_none, Item.hasKind, Item.hasKind, h.kind?]
  | some i => rfl

theorem startsWithWord_fill (h : f.SameCuts g) (word : String) (hword : word ∈ cutWords)
    (slots : Pattern Item) :
    startsWithWords [word] (fill f slots) = startsWithWords [word] (fill g slots) :=
  startsWithWords_fill (by simpa using h.spells word hword) slots

theorem opensClause_fill (h : f.SameCuts g) (slots : Pattern Item) :
    opensClause (fill f slots) = opensClause (fill g slots) := by
  have hkind : (fill f slots).head?.any (Item.hasKind · .semicolon) =
      (fill g slots).head?.any (Item.hasKind · .semicolon) := by
    cases slots with
    | nil => rfl
    | cons o slots => exact h.hasKind o .semicolon
  have hheads : clauseHeads.any (startsWithWords · (fill f slots)) =
      clauseHeads.any (startsWithWords · (fill g slots)) := by
    rw [Bool.eq_iff_iff, List.any_eq_true, List.any_eq_true]
    refine exists_congr fun words => and_congr_right fun hwords => ?_
    have hword : ∀ word ∈ words, f.spells word = g.spells word := fun word hword =>
      h.spells word (by simp [cutWords, List.mem_flatten_of_mem hwords hword])
    rw [startsWithWords_fill hword]
  rw [opensClause, opensClause, hkind, hheads]

theorem endsReferences_fill (h : f.SameCuts g) (slots : Pattern Item) :
    endsReferences (fill f slots) = endsReferences (fill g slots) := by
  rw [endsReferences, endsReferences, h.startsWithWord_fill "WHERE" (by simp [cutWords]),
    h.opensClause_fill]

end Item.SameCuts

theorem namesTable_fill {catalog : Catalog} {f g : Item}
    (h : f.namesTable catalog = g.namesTable catalog) (slots : Pattern Item) :
    (fill f slots).any (Item.namesTable catalog) = (fill g slots).any (Item.namesTable catalog) := by
  induction slots with
  | nil => rfl
  | cons o slots ih =>
      have hhead : (o.getD f).namesTable catalog = (o.getD g).namesTable catalog := by
        cases o with
        | none => exact h
        | some i => rfl
      simp only [fill_cons, List.any_cons, hhead, ih]

section Where

variable {gap : Text} {f g : Item} {l m : Level} (pre as post : Pattern Item)

theorem whereEdits_laid (h : f.SameCuts g) (t : Twins gap f g l m (pre ++ (as ++ post)))
    (condition : Text) :
    Laid gap f g pre as (whereEdits l pre.length (fill f as) condition)
      (whereEdits m pre.length (fill g as) condition) := by
  unfold whereEdits
  rw [h.startsWithWord_fill "WHERE" (by simp [cutWords])]
  split
  · rename_i hwhere
    obtain ⟨o, rest, rfl⟩ : ∃ o rest, as = o :: rest := by
      cases as with
      | nil => cases hwhere
      | cons o rest => exact ⟨o, rest, rfl⟩
    obtain ⟨own, later, rfl, hleft, hright⟩ := exists_of_breakAt h.depthAfter h.opensClause_fill 0 rest
    rw [fill_tail, fill_tail, List.tail_cons, hleft, hright]
    -- The row of chunks is the `WHERE`, the condition behind it, and the clauses behind that.
    have hlast := Laid.kept gap f g (pre ++ ([o] ++ own)) later
    cases own with
    | nil =>
        have hinsert := Twins.laid_insert (pre ++ [o]) (later ++ post) (by simpa using t)
          (' ' :: condition)
        have hall := ((Laid.kept gap f g pre [o]).append hinsert).append hlast
        simpa using hall
    | cons p own =>
        have henclose := Twins.laid_enclose (pre ++ [o]) own (later ++ post) p (by simpa using t)
          ['('] (") AND ".toList ++ condition)
        have hall := ((Laid.kept gap f g pre [o]).append henclose).append hlast
        simpa [Nat.add_assoc, Nat.add_comm] using hall
  · have hinsert := Twins.laid_insert pre (as ++ post) t (" WHERE ".toList ++ condition)
    have hall := hinsert.append (Laid.kept gap f g (pre ++ []) as)
    simpa using hall

end Where

def LevelEdit.Alike (gap : Text) (f g : Item) (pre slots : Pattern Item) (e e' : LevelEdit) : Prop :=
  Laid gap f g pre slots e.edits e'.edits ∧ e.constrained = e'.constrained

namespace LevelEdit.Alike

variable {gap : Text} {f g : Item} {pre slots more : Pattern Item} {e e' d d' : LevelEdit}

theorem none (gap : Text) (f g : Item) (pre slots : Pattern Item) :
    LevelEdit.Alike gap f g pre slots ⟨[], []⟩ ⟨[], []⟩ :=
  ⟨.kept gap f g pre slots, rfl⟩

theorem append (h : LevelEdit.Alike gap f g pre slots e e')
    (h' : LevelEdit.Alike gap f g (pre ++ slots) more d d') :
    LevelEdit.Alike gap f g pre (slots ++ more) ⟨e.edits ++ d.edits, e.constrained ++ d.constrained⟩
      ⟨e'.edits ++ d'.edits, e'.constrained ++ d'.constrained⟩ :=
  ⟨h.1.append h'.1, by rw [h.2, h'.2]⟩

end LevelEdit.Alike

def referencesOf (f : Item) (body : Pattern Item) : Pattern Item :=
  let rest := (body.drop (breakAt (startsWithWords ["FROM"]) 0 (fill f body)).1.length).tail
  rest.take (breakAt endsReferences 0 (fill f rest)).1.length

structure KeepsOut (f g : Item) (P : Pattern Item → Prop) : Prop where
  body : ∀ {body rest : Pattern Item}, P (body ++ rest) →
    breakAt (startsWithWords ["UNION"]) 0 (fill f (body ++ rest)) = (fill f body, fill f rest) →
      Unread f g (referencesOf f body)
  later : ∀ {body rest : Pattern Item} {o : Option Item}, P (body ++ o :: rest) →
    breakAt (startsWithWords ["UNION"]) 0 (fill f (body ++ o :: rest)) =
      (fill f body, fill f (o :: rest)) → P rest

section Bodies

variable (catalog : Catalog) (options : Options) {gap : Text} {f g : Item} {l m : Level}
  (pre post : Pattern Item) (h : f.SameCuts g) (hnames : f.namesTable catalog = g.namesTable catalog)

include h

theorem references_alike {r s : References} {ps as : Pattern Item}
    (t : Twins gap f g l m (pre ++ (ps ++ as ++ post))) (hunread : Unread f g ps) (halike : r.Alike s)
    {head rest : List Item} (hps : fill f ps = head ++ rest)
    (hspans : r.Spans pre.length head rest) (column : Text) :
    Agree (fun es es' => Laid gap f g pre (ps ++ as)
        (es ++ (r.plan catalog).carried.toList.flatMap fun target =>
          whereEdits l (pre ++ ps).length (fill f as) (filterCondition column target))
        (es' ++ (r.plan catalog).carried.toList.flatMap fun target =>
          whereEdits m (pre ++ ps).length (fill g as) (filterCondition column target)))
      (r.edits l column (r.plan catalog)) (s.edits m column (r.plan catalog)) := by
  obtain ⟨hs, js, rfl, rfl, rfl⟩ := List.map_eq_append_iff.1 hps
  have hne : hs ≠ [] := by
    rintro rfl
    exact hspans.first.settles.ne_nil rfl
  have hedits := Join.edits_alike (pre ++ hs) js (as ++ post) column (by simp [hne])
    (by simpa using t) hunread.of_append.2 (r.plan catalog).joins (by simpa [fill] using hspans.joins)
    halike.joins
  refine hedits.mono fun es es' hes => ?_
  have hjoins := (Laid.kept gap f g pre hs).append hes
  have hwhere : Laid gap f g (pre ++ (hs ++ js)) as
      ((r.plan catalog).carried.toList.flatMap fun target =>
        whereEdits l (pre ++ (hs ++ js)).length (fill f as) (filterCondition column target))
      ((r.plan catalog).carried.toList.flatMap fun target =>
        whereEdits m (pre ++ (hs ++ js)).length (fill g as) (filterCondition column target)) := by
    cases (r.plan catalog).carried with
    | none => exact .kept gap f g _ as
    | some target =>
        simpa using whereEdits_laid (pre ++ (hs ++ js)) as post h (by simpa using t)
          (filterCondition column target)
  exact hjoins.append hwhere

include hnames

theorem bodyEdit_alike {bs : Pattern Item} (t : Twins gap f g l m (pre ++ (bs ++ post)))
    (hunread : Unread f g (referencesOf f bs)) :
    Agree (LevelEdit.Alike gap f g pre bs) (bodyEdit catalog options l pre.length (fill f bs))
      (bodyEdit catalog options m pre.length (fill g bs)) := by
  unfold bodyEdit
  obtain ⟨front, rest, rfl, hleft, hright⟩ :=
    exists_of_breakAt h.depthAfter (h.startsWithWord_fill "FROM" (by simp [cutWords])) 0 bs
  obtain ⟨ps, as, htail, hleft', hright'⟩ :=
    exists_of_breakAt h.depthAfter h.endsReferences_fill 0 rest.tail
  have hrefs : referencesOf f (front ++ rest) = ps := by
    simp only [referencesOf, hleft, fill_length, List.drop_left, hleft']
    rw [htail, List.take_left]
  rw [hrefs] at hunread
  simp only [hleft, hright, fill_tail, hleft', hright', fill_length]
  rw [namesTable_fill hnames]
  split
  · rename_i hnames
    obtain ⟨o, rfl⟩ : ∃ o, rest = o :: (ps ++ as) := by
      cases rest with
      | nil =>
          obtain ⟨rfl, rfl⟩ := List.append_eq_nil_iff.1 htail.symm
          cases hnames
      | cons o rest => exact ⟨o, by rw [← htail, List.tail_cons]⟩
    have hafter : (fill f as).head?.any (Item.hasKind · .dot) =
        (fill g as).head?.any (Item.hasKind · .dot) := by
      cases as with
      | nil => rfl
      | cons o as => exact h.hasKind o .dot
    have hparse := hunread.parse_alike hafter Reading.maxNesting options.maxJoins
      (pre.length + front.length + 1)
    generalize hread : References.parse Reading.maxNesting options.maxJoins
      (pre.length + front.length + 1) (fill f ps) (fill f as).head? = read at hparse ⊢
    generalize References.parse Reading.maxNesting options.maxJoins
      (pre.length + front.length + 1) (fill g ps) (fill g as).head? = read' at hparse ⊢
    cases hparse with
    | error hkind => exact .error hkind
    | @ok r s halike =>
        obtain ⟨head, rest, hps, hspans⟩ := References.parse_spans hread
        have hplace : (pre ++ (front ++ [o])).length = pre.length + front.length + 1 := by
          simp [Nat.add_assoc]
        have hedits := references_alike catalog (pre ++ (front ++ [o])) post h
          (by simpa using t) hunread halike hps (by rwa [hplace]) options.column
        rw [List.length_append, hplace] at hedits
        change Agree _ ((r.edits l options.column (r.plan catalog)) >>= _)
          ((s.edits m options.column (s.plan catalog)) >>= _)
        rw [← halike.plan_eq catalog]
        refine hedits.bind fun es es' hes => .ok ⟨?_, rfl⟩
        have hfront := Laid.kept gap f g pre (front ++ [o])
        simpa using hfront.append hes
  · exact .ok (.none gap f g pre _)

variable {P : Pattern Item → Prop} (hkeeps : KeepsOut f g P)

include hkeeps

theorem bodyEdits_alike {bs : Pattern Item} (hP : P bs) (t : Twins gap f g l m (pre ++ bs)) :
    Agree (LevelEdit.Alike gap f g pre bs)
      (bodyEdits catalog options l pre.length (bodies (fill f bs)))
      (bodyEdits catalog options m pre.length (bodies (fill g bs))) := by
  -- The bodies are cut out of the filled items, so the induction is on the number of items left.
  induction hn : bs.length using Nat.strongRecOn generalizing pre bs with
  | ind n ih =>
      obtain ⟨body, rest, rfl, hleft, hright⟩ :=
        exists_of_breakAt h.depthAfter (h.startsWithWord_fill "UNION" (by simp [cutWords])) 0 bs
      have hunread := hkeeps.body hP hleft
      rw [bodies_eq, bodies_eq, hleft, hright]
      cases rest with
      | nil =>
          refine (bodyEdit_alike catalog options pre [] h hnames (by simpa using t) hunread).bind
            fun e e' he => .ok ?_
          simpa using he
      | cons o rest =>
          refine (bodyEdit_alike catalog options pre (o :: rest) h hnames t hunread).bind
            fun e e' he => ?_
          have hmore := ih rest.length (by simp [← hn]; omega) (pre ++ (body ++ [o]))
            (hkeeps.later hP hleft) (by simpa using t) rfl
          have hlen : (pre ++ (body ++ [o])).length = pre.length + body.length + 1 := by
            simp [Nat.add_assoc]
          rw [hlen] at hmore
          rw [fill_length, fill_length]
          refine hmore.bind fun d d' hd => .ok ?_
          have hunion := LevelEdit.Alike.none gap f g (pre ++ body) [o]
          have hall := he.append (hunion.append (d := d) (by simpa using hd))
          simpa using hall

theorem filterEdit_alike {slots : Pattern Item} (hP : P slots) (t : Twins gap f g l m slots) :
    Agree (LevelEdit.Alike gap f g [] slots) (l.filterEdit catalog options)
      (m.filterEdit catalog options) := by
  rw [Level.filterEdit, Level.filterEdit, t.left, t.right]
  exact bodyEdits_alike catalog options [] h hnames hkeeps hP t

end Bodies

end SoftDelete
