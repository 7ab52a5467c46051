import SoftDelete.Proofs.Coverage.Body
import SoftDelete.Proofs.Policy

namespace SoftDelete

namespace Item

def withoutBody : Item → Item
  | .token t => .token t
  | .subselect gap text _ => .subselect gap text []

variable (i : Item)

@[simp] theorem kind?_withoutBody : i.withoutBody.kind? = i.kind? := by
  cases i <;> rfl

@[simp] theorem text_withoutBody : i.withoutBody.text = i.text := by
  cases i <;> rfl

@[simp] theorem spells_withoutBody (word : String) : i.withoutBody.spells word = i.spells word := by
  cases i <;> rfl

@[simp] theorem namesTable_withoutBody (catalog : Catalog) :
    i.withoutBody.namesTable catalog = i.namesTable catalog := by
  cases i <;> rfl

@[simp] theorem hasKind_withoutBody (kind : Token.Kind) :
    i.withoutBody.hasKind kind = i.hasKind kind := by
  simp [hasKind]

@[simp] theorem freeName?_withoutBody : i.withoutBody.freeName? = i.freeName? := by
  simp [freeName?]

@[simp] theorem depthAfter_withoutBody (depth : Nat) :
    i.withoutBody.depthAfter depth = i.depthAfter depth := by
  simp [depthAfter]

@[simp] theorem opensTable_withoutBody : i.withoutBody.opensTable = i.opensTable := by
  simp [opensTable]

end Item

section WithoutBody

variable (items : List Item)

@[simp] theorem startsWithWords_withoutBody (words : List String) :
    startsWithWords words (items.map Item.withoutBody) = startsWithWords words items := by
  induction items generalizing words with
  | nil => rfl
  | cons i items ih =>
      cases words with
      | nil => rfl
      | cons word words => simp [startsWithWords, ih]

@[simp] theorem endsReferences_withoutBody :
    endsReferences (items.map Item.withoutBody) = endsReferences items := by
  cases items with
  | nil => rfl
  | cons i items =>
      have hwords := startsWithWords_withoutBody (i :: items)
      simp only [List.map_cons] at hwords
      simp [endsReferences, opensClause, hwords]

@[simp] theorem effectiveName_withoutBody (i : Item) :
    effectiveName i.withoutBody (items.map Item.withoutBody) = effectiveName i items := by
  rcases items with _ | ⟨j, _ | ⟨k, items⟩⟩
  · simp [effectiveName]
  · cases hj : j.spells "AS" <;> simp [effectiveName, hj]
  · cases hj : j.spells "AS" <;> simp [effectiveName, hj]

@[simp] theorem mentioned?_withoutBody (catalog : Catalog) (i : Item) :
    mentioned? catalog i.withoutBody (items.map Item.withoutBody) = mentioned? catalog i items := by
  have hpoint : (items.map Item.withoutBody).head?.any (Item.hasKind · .dot) =
      items.head?.any (Item.hasKind · .dot) := by
    cases items <;> simp
  rw [mentioned?, mentioned?, hpoint]
  simp

theorem Scan.demands_withoutBody (catalog : Catalog) (every : Bool) (s : Scan) :
    s.demands catalog every (items.map Item.withoutBody) = s.demands catalog every items := by
  induction items generalizing s with
  | nil => rfl
  | cons i items ih =>
      have hends := endsReferences_withoutBody (i :: items)
      simp only [List.map_cons] at hends ⊢
      have hplace : s.placeAfter every i.withoutBody (items.map Item.withoutBody) =
          s.placeAfter every i items := by
        simp [placeAfter, placeInBody, opensGroup, hends]
      have hnext : s.next every i.withoutBody (items.map Item.withoutBody) =
          s.next every i items := by
        simp [next, opensGroup, hplace]
      simp [demands, demand, hplace, hnext, ih]

end WithoutBody

section Levels

variable {catalog : Catalog} {options : Options} {nested : Nat → Text → Attempt Text}
  {offset n : Nat} {segs : List Segment} {items : List Item}

theorem itemsOf_withoutBody (h : (itemsOf nested offset segs).result = .ok items) :
    items.map Item.withoutBody = segs.map Segment.item := by
  induction segs generalizing offset items with
  | nil =>
      cases h
      rfl
  | cons seg segs ih =>
      cases seg with
      | token t =>
          obtain ⟨later, hlater, rfl, -⟩ := itemsOf_token h
          simp [ih hlater, Segment.item, Item.withoutBody]
      | subselect opening inner closing =>
          obtain ⟨start, stop, body, later, -, hlater, rfl, -⟩ := itemsOf_subselect h
          simp [ih hlater, Segment.item, Item.withoutBody]

theorem itemsOf_covers
    (hnested : ∀ {start : Nat} {inner out : Text}, (nested start inner).result = .ok out →
      (nested start inner).notes.problems = [] →
        (demandedWithin catalog false n inner).Subperm (nested start inner).notes.constrained)
    (h : (itemsOf nested offset segs).result = .ok items)
    (hproblems : (itemsOf nested offset segs).notes.problems = []) :
    ((segs.filterMap Segment.inside?).flatMap (demandedWithin catalog false n)).Subperm
      (itemsOf nested offset segs).notes.constrained := by
  induction segs generalizing offset items with
  | nil => exact List.nil_subperm
  | cons seg segs ih =>
      cases seg with
      | token t =>
          obtain ⟨later, hlater, -, hnotes⟩ := itemsOf_token h
          rw [hnotes] at hproblems ⊢
          exact ih hlater hproblems
      | subselect opening inner closing =>
          obtain ⟨start, stop, body, later, hbody, hlater, -, hnotes⟩ := itemsOf_subselect h
          rw [hnotes] at hproblems ⊢
          obtain ⟨hinner, hrest⟩ := List.append_eq_nil_iff.1 hproblems
          exact (hnested hbody hinner).append (ih hlater hrest)

theorem Level.filterEdit_covers {edit : LevelEdit} {tail : Text}
    (h : (Level.mk items tail).filterEdit catalog options = .ok edit) :
    (Scan.start.demands catalog false items).Subperm edit.constrained :=
  bodyEdits_covers ⟨.inl rfl, fun _ => rfl⟩ rfl h

theorem LevelEnds.covers {tail out : Text} {unclosed : List Token} {notes : Notes}
    (h : LevelEnds catalog options items tail unclosed out notes)
    (hproblems : notes.problems = []) :
    (Scan.start.demands catalog false (items ++ unclosed.map Item.token)).Subperm
      notes.constrained := by
  cases h with
  | unclosed p => cases hproblems
  | filtered hnames hedit => simpa using Level.filterEdit_covers hedit
  | untouched hnames =>
      have hnone : Scan.start.demands catalog false items = [] :=
        Scan.demands_eq_nil_of_names hnames
      simp [hnone]

theorem filterLevel_covers_step {room depth : Nat} {sql out : Text}
    (hnested : ∀ {start : Nat} {inner out : Text},
      (nestedFilter catalog options room depth start inner).result = .ok out →
        (nestedFilter catalog options room depth start inner).notes.problems = [] → ∀ n : Nat,
          (demandedWithin catalog false n inner).Subperm
            (nestedFilter catalog options room depth start inner).notes.constrained)
    (h : (filterLevel catalog options room depth offset sql).result = .ok out)
    (hproblems : (filterLevel catalog options room depth offset sql).notes.problems = [])
    (n : Nat) :
    (demandedWithin catalog false n sql).Subperm
      (filterLevel catalog options room depth offset sql).notes.constrained := by
  cases n with
  | zero => exact List.nil_subperm
  | succ n =>
      obtain ⟨l, items, notes, hlex, hitems, hends, hnotes⟩ := filterLevel_cases h
      rw [hnotes] at hproblems ⊢
      obtain ⟨hbodies, hlevel⟩ := List.append_eq_nil_iff.1 hproblems
      have hsubselects := itemsOf_covers (fun hbody hnone => hnested hbody hnone n) hitems hbodies
      have hown := hends.covers hlevel
      have hitems' : (items ++ (segments l.tokens).2.map Item.token).map Item.withoutBody =
          (segments l.tokens).1.map Segment.item ++ (segments l.tokens).2.map Item.token := by
        rw [List.map_append, itemsOf_withoutBody hitems, List.map_map]
        rfl
      rw [← Scan.demands_withoutBody, hitems'] at hown
      simp only [demandedWithin, hlex]
      exact hsubselects.append hown

theorem filterLevel_covers {room depth : Nat} {sql out : Text}
    (h : (filterLevel catalog options room depth offset sql).result = .ok out)
    (hproblems : (filterLevel catalog options room depth offset sql).notes.problems = [])
    (n : Nat) :
    (demandedWithin catalog false n sql).Subperm
      (filterLevel catalog options room depth offset sql).notes.constrained := by
  induction room generalizing depth offset sql out n with
  | zero =>
      -- Behind the last level every sub-select is a problem.
      refine filterLevel_covers_step (fun _ hnone => ?_) h hproblems n
      cases hnone
  | succ room ih =>
      refine filterLevel_covers_step ?_ h hproblems n
      intro start inner out hbody hnone
      exact ih hbody hnone

end Levels

namespace Policy

theorem filterWith_covers (parse : Text → Except String Unit) (p : Policy) (sql : Text)
    (houtcome : (p.filterWith parse sql).outcome = .filtered ∨
      (p.filterWith parse sql).outcome = .unchanged)
    (hproblems : (p.filterWith parse sql).problems = []) (n : Nat) :
    (demandedWithin p.catalog false n sql).Subperm (p.filterWith parse sql).constrained := by
  have hends := p.filterWith_ends parse sql
  generalize p.filterWith parse sql = f at hends houtcome hproblems
  cases hends with
  | notSelect | explicitCondition | failed => rcases houtcome with h | h <;> cases h
  | filtered _ _ hwhole | kept _ _ hwhole => exact filterLevel_covers hwhole hproblems n

theorem filterWith_covers_nested :
    let p : Policy := ⟨⟨["hist_a".toList, "hist_b".toList]⟩, ⟨"deleted".toList, 8, 8, true⟩⟩
    let sql := "SELECT * FROM (SELECT id FROM hist_b) q, hist_a a WHERE a.id = q.id".toList
    demandedWithin p.catalog false 2 sql = ["hist_b".toList, "a".toList] ∧
      (demandedWithin p.catalog false 2 sql).Subperm
        (p.filterWith (fun _ => .ok ()) sql).constrained :=
  ⟨by decide +kernel, filterWith_covers _ _ _ (.inl (by decide +kernel)) (by decide +kernel) 2⟩

/-- A second statement behind a semicolon has a `FROM` of its own, outside all parentheses. -/
theorem filterWith_not_covers :
    let p : Policy := ⟨⟨["hist_a".toList]⟩, ⟨"deleted".toList, 8, 8, true⟩⟩
    let sql := "SELECT * FROM plain; SELECT * FROM hist_a".toList
    (p.filterWith (fun _ => .ok ()) sql).outcome = .unchanged ∧
      (p.filterWith (fun _ => .ok ()) sql).problems = [] ∧
      ¬ (demandedWithin p.catalog true 1 sql).Subperm
        (p.filterWith (fun _ => .ok ()) sql).constrained := by
  decide +kernel

end Policy

end SoftDelete
