import SoftDelete.Proofs.Conservation.Body
import SoftDelete.Proofs.Policy
import SoftDelete.Proofs.Union.Level

namespace SoftDelete

variable {A : Text}

namespace Text

theorem takeBytes_subset (n : Nat) (s : Text) : takeBytes n s ⊆ s := by
  intro c hc
  rw [← takeBytes_append_dropBytes n s]
  exact List.mem_append_left _ hc

theorem dropBytes_subset (n : Nat) (s : Text) : dropBytes n s ⊆ s := by
  intro c hc
  rw [← takeBytes_append_dropBytes n s]
  exact List.mem_append_right _ hc

theorem slice_subset (s : Text) (start stop : Nat) : s.slice start stop ⊆ s :=
  fun _ hc => dropBytes_subset start s (takeBytes_subset _ _ hc)

theorem flatMap_subset {α : Type} {f : α → Text} {as : List α} (h : ∀ a ∈ as, f a ⊆ A) :
    as.flatMap f ⊆ A := by
  intro c hc
  obtain ⟨a, ha, hc⟩ := List.mem_flatMap.1 hc
  exact h a ha hc

theorem joined_subset {separator : String} {parts : List Text} (h : separator.toList ⊆ A)
    (hparts : ∀ s ∈ parts, s ⊆ A) : joined separator parts ⊆ A := by
  induction parts with
  | nil => exact List.nil_subset A
  | cons s parts ih =>
      obtain ⟨hs, hparts⟩ := List.forall_mem_cons.1 hparts
      cases parts with
      | nil => simpa [joined] using hs
      | cons t parts =>
          have hrest := ih hparts
          simp only [joined, List.intercalate_cons_cons, List.append_subset] at hrest ⊢
          exact ⟨⟨hs, h⟩, hrest⟩

end Text

structure Item.WrittenIn (A : Text) (i : Item) : Prop where
  gap : i.gap ⊆ A
  text : i.text ⊆ A
  output : i.output ⊆ A

structure Level.WrittenIn (A : Text) (l : Level) : Prop where
  items : ∀ i ∈ l.items, i.WrittenIn A
  tail : l.tail ⊆ A

theorem outputOf_subset {items : List Item} (h : ∀ i ∈ items, i.WrittenIn A) :
    outputOf items ⊆ A := by
  cases items with
  | nil => exact List.nil_subset A
  | cons i items =>
      obtain ⟨hi, hitems⟩ := List.forall_mem_cons.1 h
      exact List.append_subset.2 ⟨hi.output, Text.flatMap_subset fun j hj =>
        List.append_subset.2 ⟨(hitems j hj).gap, (hitems j hj).output⟩⟩

theorem placedFrom_subset {items : List Item} (h : ∀ i ∈ items, i.WrittenIn A) {offset : Nat} :
    ∀ p ∈ placedFrom offset items, '(' :: (p.body ++ [')']) ⊆ A := by
  induction items generalizing offset with
  | nil => nofun
  | cons i items ih =>
      obtain ⟨hi, hitems⟩ := List.forall_mem_cons.1 h
      cases i with
      | token t => exact ih hitems
      | subselect gap text body => exact List.forall_mem_cons.2 ⟨hi.output, ih hitems⟩

theorem outputWithin_subset {source : Text} {placed : List Placed} (hsource : source ⊆ A)
    (h : ∀ p ∈ placed, '(' :: (p.body ++ [')']) ⊆ A) (start stop : Nat) :
    outputWithin source stop start placed ⊆ A := by
  have hslice : ∀ start stop, source.slice start stop ⊆ A := fun start stop =>
    List.Subset.trans (Text.slice_subset source start stop) hsource
  induction placed generalizing start with
  | nil => exact hslice start stop
  | cons p placed ih =>
      obtain ⟨hp, hplaced⟩ := List.forall_mem_cons.1 h
      rw [outputWithin]
      split
      · simp only [List.append_subset, List.cons_subset] at hp ⊢
        exact ⟨hslice _ _, hp.1, hp.2.1, hp.2.2.1, ih hplaced _⟩
      · exact ih hplaced start

namespace Level

variable {l : Level}

theorem WrittenIn.source (h : l.WrittenIn A) : l.source ⊆ A :=
  List.append_subset.2 ⟨Text.flatMap_subset fun i hi =>
    List.append_subset.2 ⟨(h.items i hi).gap, (h.items i hi).text⟩, h.tail⟩

theorem WrittenIn.itemsIn (h : l.WrittenIn A) (start stop : Nat) :
    outputOf (l.itemsIn start stop) ⊆ A :=
  outputOf_subset fun i hi => h.items i (List.mem_of_mem_drop (List.mem_of_mem_take hi))

theorem WrittenIn.outputBetween (h : l.WrittenIn A) (start stop : Nat) :
    l.outputBetween start stop ⊆ A :=
  outputWithin_subset h.source (placedFrom_subset h.items) start stop

theorem WrittenIn.outputWith (h : l.WrittenIn A) {edits : List Edit}
    (hedits : ∀ e ∈ edits, e.text ⊆ A) : l.outputWith edits ⊆ A := by
  have hfrom : ∀ (edits : List Edit) (start : Nat), (∀ e ∈ edits, e.text ⊆ A) →
      l.outputFrom start edits ⊆ A := by
    intro edits
    induction edits with
    | nil => exact fun start _ => h.outputBetween start _
    | cons e edits ih =>
        intro start hedits
        obtain ⟨he, hedits⟩ := List.forall_mem_cons.1 hedits
        simp only [outputFrom, List.append_subset]
        exact ⟨h.outputBetween _ _, he, ih _ hedits⟩
  exact hfrom _ 0 fun e he => hedits e (List.mem_mergeSort.1 he)

end Level

def filterCharacters : Text :=
  " INNER JOIN ON AND WHERE (. = 0 OR . IS NULL)".toList

section Edits

variable {column : Text} {l : Level}

theorem NamedIn.subset {items : List Item} {target : Text} (h : NamedIn items target)
    (hitems : ∀ i ∈ items, i.WrittenIn A) (hwords : filterCharacters ⊆ A) : target ⊆ A := by
  obtain ⟨names, -, hnames, rfl⟩ := h
  refine Text.joined_subset (List.Subset.trans (by decide) hwords) fun s hs => ?_
  obtain ⟨t, ht, rfl⟩ := List.mem_map.1 hs
  exact (hitems (.token t) (hnames t ht).1).text

theorem filterCondition_subset (hwords : filterCharacters ⊆ A) (hcolumn : column ⊆ A)
    {target : Text} (htarget : target ⊆ A) : filterCondition column target ⊆ A := by
  have hmarks : '(' :: '.' :: (" = 0 OR ".toList ++ " IS NULL)".toList) ⊆ A :=
    List.Subset.trans (by decide) hwords
  simp only [List.cons_subset, List.append_subset] at hmarks
  simp only [filterCondition, List.cons_subset, List.append_subset]
  exact ⟨hmarks.1, ⟨htarget, hmarks.2.1, hcolumn⟩, hmarks.2.2.1, ⟨htarget, hmarks.2.1, hcolumn⟩,
    hmarks.2.2.2⟩

variable (hwords : filterCharacters ⊆ A) (hl : l.WrittenIn A)
include hwords hl

theorem Join.keywordText_subset (j : Join) : j.keywordText l ⊆ A := by
  unfold keywordText
  split
  · exact List.Subset.trans (by decide) hwords
  · exact hl.itemsIn _ _

theorem Join.ownCondition_subset {j : Join} {own : List Text} (h : j.ownCondition l = .ok own) :
    ∀ s ∈ own, s ⊆ A := by
  have hmarks : ['(', ')'] ⊆ A := List.Subset.trans (by decide) hwords
  simp only [List.cons_subset] at hmarks
  unfold ownCondition at h
  split at h
  · cases h
    intro s hs
    simp only [List.mem_singleton.1 hs, List.cons_subset, List.append_subset]
    exact ⟨hmarks.1, hl.itemsIn _ _, hmarks.2.1, List.nil_subset A⟩
  · cases h
  · split at h
    · cases h
    · cases h
      nofun

variable (hcolumn : column ⊆ A)
include hcolumn

theorem Join.edit_subset {j : Join} {targets : List Text} {e : Edit}
    (htargets : ∀ target ∈ targets, target ⊆ A) (h : j.edit l column targets = .ok e) :
    e.text ⊆ A := by
  obtain ⟨own, hown, h⟩ := exists_of_bind_ok h
  cases h
  have hspace : j.leadingSpace l ⊆ A := by
    unfold leadingSpace
    repeat' split
    all_goals exact List.Subset.trans (by decide) hwords
  have hconditions : Text.joined " AND " (targets.map (filterCondition column) ++ own) ⊆ A := by
    refine Text.joined_subset (List.Subset.trans (by decide) hwords) fun s hs => ?_
    rcases List.mem_append.1 hs with hs | hs
    · obtain ⟨target, htarget, rfl⟩ := List.mem_map.1 hs
      exact filterCondition_subset hwords hcolumn (htargets target htarget)
    · exact ownCondition_subset hwords hl hown s hs
  have hmarks : ' ' :: " ON ".toList ⊆ A := List.Subset.trans (by decide) hwords
  rw [List.cons_subset] at hmarks
  simp only [List.cons_subset, List.append_subset]
  exact ⟨hspace, keywordText_subset hwords hl j, hmarks.1, hl.itemsIn _ _, hmarks.2, hconditions⟩

theorem References.edits_subset {r : References} {plan : FilterPlan} {edits : List Edit}
    (htargets : ∀ target ∈ plan.constrained, target ⊆ A) (h : r.edits l column plan = .ok edits) :
    ∀ e ∈ edits, e.text ⊆ A := by
  intro e he
  obtain ⟨pair, hpair, hedit⟩ := exists_of_mem_mapM h he
  have hmem := (List.of_mem_zip (List.mem_of_mem_filter hpair)).2
  refine Join.edit_subset hwords hl hcolumn (fun target htarget => htargets target ?_) hedit
  exact List.mem_append_left _ (List.mem_flatten_of_mem hmem htarget)

end Edits

theorem whereEdits_subset {condition : Text} (hwords : filterCharacters ⊆ A)
    (hcondition : condition ⊆ A) (l : Level) (stop : Nat) (after : List Item) :
    ∀ e ∈ whereEdits l stop after condition, e.text ⊆ A := by
  have hmark : ∀ {s : Text}, s ⊆ filterCharacters → s ⊆ A := fun hs =>
    List.Subset.trans hs hwords
  have hspaced : [' '] ++ condition ⊆ A :=
    List.append_subset.2 ⟨hmark (by decide), hcondition⟩
  unfold whereEdits
  split
  · dsimp only
    split
    · simpa [Edit.insert] using hspaced
    · simp only [List.forall_mem_cons, Edit.insert]
      exact ⟨hmark (by decide), List.append_subset.2 ⟨hmark (by decide), hcondition⟩,
        List.forall_mem_nil _⟩
  · simp only [List.forall_mem_cons, Edit.insert]
    exact ⟨List.append_subset.2 ⟨hmark (by decide), hcondition⟩, List.forall_mem_nil _⟩

theorem mem_of_mem_bodies {items body : List Item} (h : body ∈ bodies items) :
    ∀ i ∈ body, i ∈ items := by
  fun_induction bodies items with
  | case1 items whole hcut =>
      rw [List.mem_singleton.1 h, eq_append_of_breakAt hcut]
      exact fun i hi => List.mem_append_left _ hi
  | case2 items first union rest hcut ih =>
      rw [eq_append_of_breakAt hcut]
      intro i hi
      rcases List.mem_cons.1 h with rfl | h
      · exact List.mem_append_left _ hi
      · exact List.mem_append_right _ (List.mem_cons_of_mem _ (ih h i hi))

section Levels

variable {catalog : Catalog} {options : Options} (hwords : filterCharacters ⊆ A)
  (hcolumn : options.column ⊆ A)
include hwords hcolumn

theorem bodyEdit_subset {l : Level} (hl : l.WrittenIn A) {start : Nat} {body : List Item}
    (hbody : ∀ i ∈ body, i ∈ l.items) {edit : LevelEdit}
    (h : bodyEdit catalog options l start body = .ok edit) : ∀ e ∈ edit.edits, e.text ⊆ A := by
  cases bodyEdit_ends h with
  | noFrom | unnamed => nofun
  | @filtered front items after f r edits hparts hparse hedits =>
      have htargets : ∀ target ∈ (r.plan catalog).constrained, target ⊆ A := by
        intro target htarget
        refine (namedIn_of_plan hparse catalog target htarget).subset (fun i hi => ?_) hwords
        exact hl.items i (hbody i (by simp [hparts.body_eq, hi]))
      intro e he
      rcases List.mem_append.1 he with he | he
      · exact References.edits_subset hwords hl hcolumn htargets hedits e he
      · obtain ⟨target, htarget, he⟩ := List.mem_flatMap.1 he
        have htext := htargets target (List.mem_append_right _ htarget)
        exact whereEdits_subset hwords (filterCondition_subset hwords hcolumn htext) l _ after e he

theorem bodyEdits_subset {l : Level} (hl : l.WrittenIn A) {start : Nat}
    {parts : List (List Item)} (hparts : ∀ body ∈ parts, ∀ i ∈ body, i ∈ l.items) {edit : LevelEdit}
    (h : bodyEdits catalog options l start parts = .ok edit) : ∀ e ∈ edit.edits, e.text ⊆ A := by
  induction parts generalizing start edit with
  | nil =>
      cases h
      nofun
  | cons body later ih =>
      obtain ⟨hbody, hlater⟩ := List.forall_mem_cons.1 hparts
      rw [bodyEdits] at h
      obtain ⟨first, hfirst, h⟩ := exists_of_bind_ok h
      obtain ⟨more, hmore, h⟩ := exists_of_bind_ok h
      cases h
      intro e he
      rcases List.mem_append.1 he with he | he
      · exact bodyEdit_subset hwords hcolumn hl hbody hfirst e he
      · exact ih hlater hmore e he

omit hcolumn in
theorem itemsOf_writtenIn {nested : Nat → Text → Attempt Text}
    (hnested : ∀ {start body out}, body ⊆ A → (nested start body).result = .ok out → out ⊆ A)
    {segs : List Segment} (hsegs : ∀ s ∈ segs, s.source ⊆ A) {offset : Nat} {items : List Item}
    (h : (itemsOf nested offset segs).result = .ok items) : ∀ i ∈ items, i.WrittenIn A := by
  induction segs generalizing offset items with
  | nil =>
      cases h
      nofun
  | cons s segs ih =>
      obtain ⟨hs, hrest⟩ := List.forall_mem_cons.1 hsegs
      cases s with
      | token t =>
          obtain ⟨later, hlater, rfl, -⟩ := itemsOf_token h
          simp only [Segment.source, Segment.tokens, sourceOf_cons, sourceOf_nil, List.append_nil,
            Token.source, List.append_subset] at hs
          exact List.forall_mem_cons.2 ⟨⟨hs.1, hs.2, hs.2⟩, ih hrest hlater⟩
      | subselect opening inner closing =>
          obtain ⟨start, stop, body, later, hbody, hlater, rfl, -⟩ := itemsOf_subselect h
          simp only [Segment.source, Segment.tokens, sourceOf_cons, sourceOf_append, sourceOf_nil,
            List.append_nil, Token.source, List.append_subset] at hs
          obtain ⟨⟨hgap, hopening⟩, hinner, hclosing⟩ := hs
          have hout := hnested (List.append_subset.2 ⟨hinner, hclosing.1⟩) hbody
          have hmarks : ['(', ')'] ⊆ A := List.Subset.trans (by decide) hwords
          simp only [List.cons_subset] at hmarks
          refine List.forall_mem_cons.2 ⟨⟨hgap, ?_, ?_⟩, ih hrest hlater⟩
          · simp only [Item.text, Token.source, List.append_subset]
            exact ⟨hopening, hinner, hclosing⟩
          · simp only [Item.output, List.cons_subset, List.append_subset]
            exact ⟨hmarks.1, hout, hmarks.2.1, List.nil_subset A⟩

theorem filterLevel_subset_of_nested {room depth offset : Nat}
    (hnested : ∀ {start body out}, body ⊆ A →
      (nestedFilter catalog options room depth start body).result = .ok out → out ⊆ A)
    {sql out : Text} (hsql : sql ⊆ A)
    (h : (filterLevel catalog options room depth offset sql).result = .ok out) : out ⊆ A := by
  obtain ⟨l, items, notes, hlex, hitems, hends, -⟩ := filterLevel_cases h
  have hsource : ((segments l.tokens).1.flatMap Segment.source ++
      sourceOf (segments l.tokens).2) ++ l.tail = sql := by
    have htokens := congrArg sourceOf (segments_append l.tokens)
    rw [sourceOf_append, sourceOf, List.flatMap_assoc] at htokens
    rw [← source_of_lex hlex, Lexed.source, ← htokens]
    rfl
  rw [← hsource, List.append_subset, List.append_subset] at hsql
  obtain ⟨⟨hsegs, hunclosed⟩, htail⟩ := hsql
  have hwritten : ∀ i ∈ items, i.WrittenIn A := by
    refine itemsOf_writtenIn hwords hnested (fun s hs c hc => hsegs ?_) hitems
    exact List.mem_flatMap.2 ⟨s, hs, hc⟩
  generalize (segments l.tokens).2 = unclosed at hends hunclosed
  cases hends with
  | unclosed =>
      have hl : Level.WrittenIn A ⟨items, _⟩ :=
        ⟨hwritten, List.append_subset.2 ⟨hunclosed, htail⟩⟩
      exact hl.outputWith (List.forall_mem_nil _)
  | untouched =>
      have hl : Level.WrittenIn A ⟨items, l.tail⟩ := ⟨hwritten, htail⟩
      exact hl.outputWith (List.forall_mem_nil _)
  | filtered _ hedit =>
      have hl : Level.WrittenIn A ⟨items, l.tail⟩ := ⟨hwritten, htail⟩
      exact hl.outputWith
        (bodyEdits_subset hwords hcolumn hl (fun body hbody => mem_of_mem_bodies hbody) hedit)

theorem filterLevel_subset {room depth offset : Nat} {sql out : Text} (hsql : sql ⊆ A)
    (h : (filterLevel catalog options room depth offset sql).result = .ok out) : out ⊆ A := by
  induction room generalizing depth offset sql out with
  | zero =>
      refine filterLevel_subset_of_nested hwords hcolumn (fun {start body out} hbody hout => ?_)
        hsql h
      obtain rfl : body = out := Except.ok.inj hout
      exact hbody
  | succ room ih =>
      have hnested : ∀ {start body out}, body ⊆ A →
          (nestedFilter catalog options (room + 1) depth start body).result = .ok out → out ⊆ A :=
        fun hbody hout => @ih (depth + 1) _ _ _ hbody hout
      exact filterLevel_subset_of_nested hwords hcolumn hnested hsql h

end Levels

theorem Policy.filterWith_subset (parse : Text → Except String Unit) (p : Policy) (sql : Text) :
    (p.filterWith parse sql).result ⊆ sql ++ (p.options.column ++ filterCharacters) := by
  have hsql : sql ⊆ sql ++ (p.options.column ++ filterCharacters) := List.subset_append_left _ _
  rcases (p.filterWith_ends parse sql).kept_or_filtered with ⟨-, hkept⟩ | ⟨-, -, hwhole, -⟩
  · rw [hkept]
    exact hsql
  · refine filterLevel_subset ?_ ?_ hsql hwhole
    · simp
    · simp

end SoftDelete
