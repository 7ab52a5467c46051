import SoftDelete.Proofs.Isolation.Swap
import SoftDelete.Proofs.Policy
import SoftDelete.Proofs.Select.Reports

namespace SoftDelete

theorem Visits.here_or_closed {catalog : Catalog} {options : Options} {v w : Visit} {before : Notes}
    (h : Visits catalog options v before w) :
    w = v ∨ ∃ l, lex w.sql = .ok l ∧ (segments l.tokens).2 = [] := by
  induction h with
  | here v => exact .inl rfl
  | @inside v w room l front later opening closing inner items notes hroom hlex hsegs hfront h ih =>
      rcases ih with rfl | hclosed
      · have hmem : .subselect opening inner closing ∈ (segments l.tokens).1 := by simp [hsegs]
        exact .inr ((CutInto.of_lex hlex).body_closed hmem)
      · exact .inr hclosed

inductive Replaced (nested : Nat → Text → Attempt Text) : Nat → List Segment → Text → Prop where
  | nil (offset : Nat) : Replaced nested offset [] []
  | token {offset : Nat} {t : Token} {later : List Segment} {out : Text}
      (h : Replaced nested (offset + Text.byteSize t.source) later out) :
      Replaced nested offset (.token t :: later) (t.source ++ out)
  | subselect {offset : Nat} {opening closing : Token} {inner : List Token} {later : List Segment}
      {body out : Text}
      (hbody : (nested (offset + Text.byteSize opening.source)
        (sourceOf inner ++ closing.gap)).result = .ok body)
      (h : Replaced nested (offset + Text.byteSize (Segment.subselect opening inner closing).source)
        later out) :
      Replaced nested offset (.subselect opening inner closing :: later)
        (opening.gap ++ '(' :: (body ++ ')' :: out))

theorem itemsOf_replaced {nested : Nat → Text → Attempt Text} {offset : Nat} {segs : List Segment}
    {items : List Item} (h : (itemsOf nested offset segs).result = .ok items) :
    Replaced nested offset segs (items.flatMap fun i => i.gap ++ i.output) := by
  induction segs generalizing offset items with
  | nil =>
      cases h
      exact .nil offset
  | cons s segs ih =>
      cases s with
      | token t =>
          rw [itemsOf] at h
          obtain ⟨later, hlater, h, -⟩ := Attempt.exists_of_bind h
          cases h
          exact .token (ih hlater)
      | subselect opening inner closing =>
          rw [itemsOf] at h
          obtain ⟨body, hbody, h, -⟩ := Attempt.exists_of_bind h
          obtain ⟨later, hlater, h, -⟩ := Attempt.exists_of_bind h
          cases h
          have hreplaced := Replaced.subselect hbody (ih hlater)
          simpa [Item.gap, Item.output] using hreplaced

structure OpenedAt (sql : Text) (n : Nat) (segs : List Segment) (gap back : Text) : Prop where
  source_eq : sql = segs.flatMap Segment.source ++ (gap ++ '(' :: back)
  offset_eq : n = Text.byteSize (segs.flatMap Segment.source ++ gap)
  cut : ∃ tokens ts tail, lex sql = .ok ⟨tokens, tail⟩ ∧
    segments tokens = (segs, ⟨gap, .lparen, ['(']⟩ :: ts) ∧
    ts.head?.any (·.spells "SELECT") = true ∧ StaysOpen Token.kind? 0 ts

theorem openedAt_of_lex {sql : Text} {l : Lexed} {t : Token} {ts : List Token} (hlex : lex sql = .ok l)
    (hunclosed : (segments l.tokens).2 = t :: ts) :
    t.text = ['('] ∧
      OpenedAt sql (unclosedAt 0 (segments l.tokens).1 (t :: ts)) (segments l.tokens).1 t.gap
        (sourceOf ts ++ l.tail) := by
  obtain ⟨hopens, hopen⟩ := opens_of_unclosed hunclosed
  obtain ⟨hkind, hselect⟩ := Bool.and_eq_true_iff.1 hopens
  have hcut := CutInto.of_lex hlex
  rw [hunclosed] at hcut
  obtain ⟨gap, kind, text⟩ := t
  obtain rfl : kind = .lparen := by simpa using hkind
  obtain ⟨r, hr⟩ := hcut.readable.stands (t := ⟨gap, .lparen, text⟩) (by simp)
  obtain rfl := hr.lexeme.lparen_text
  refine ⟨rfl, ?_, ?_, l.tokens, ts, l.tail, hlex, Prod.ext rfl hunclosed, hselect, hopen⟩
  · have hsource := hcut.source_eq
    rw [sourceOf_append, sourceOf_segments] at hsource
    simpa [Token.source] using hsource
  · simp [unclosedAt]

namespace Attempt

def problems (x : Attempt Text) : List Problem :=
  match x.result with
  | .ok _ => x.notes.problems
  | .error e => x.notes.problems ++ [⟨e, 0⟩]

theorem Reports.of_problems {P : Failure → Prop} {x : Attempt Text} (h : x.Reports P) :
    ∀ q ∈ x.problems, P q.failure := by
  intro q hq
  unfold problems at hq
  split at hq
  · exact h.noted q hq
  · rename_i e he
    rcases List.mem_append.1 hq with hq | hq
    · exact h.noted q hq
    · obtain rfl := List.mem_singleton.1 hq
      exact h.fails e he

end Attempt

section Whole

variable {catalog : Catalog} {options : Options} {room : Nat} {sql : Text}

inductive WholeEnds (catalog : Catalog) (options : Options) (room : Nat) (sql : Text) :
    Attempt Text → Prop where
  | unread {n : Nat} (h : lex sql = .error n) :
      WholeEnds catalog options room sql ⟨.error (.unclosedQuote n), .empty⟩
  | told {x : Attempt Text} (h : x.Reports Failure.InClosed) : WholeEnds catalog options room sql x
  | opened {n : Nat} {segs : List Segment} {gap back front : Text} {notes : Notes}
      (hopened : OpenedAt sql n segs gap back)
      (hfront : Replaced (nestedFilter catalog options room 0) 0 segs front)
      (hnotes : ∀ q ∈ notes.problems, q.failure.InClosed) :
      WholeEnds catalog options room sql
        ⟨.ok (front ++ (gap ++ '(' :: back)), notes ++ ⟨[], [⟨.unclosedSubselect n, 0⟩]⟩⟩

theorem filterLevel_wholeEnds (catalog : Catalog) (options : Options) (room : Nat) (sql : Text) :
    WholeEnds catalog options room sql (filterLevel catalog options room 0 0 sql) := by
  cases hlex : lex sql with
  | error n =>
      rw [filterLevel_eq, Lexed.ofText, hlex]
      exact .unread hlex
  | ok l =>
      cases hunclosed : (segments l.tokens).2 with
      | nil => exact .told (filterLevel_reports hlex hunclosed)
      | cons t ts =>
          obtain ⟨htext, hopened⟩ := openedAt_of_lex hlex hunclosed
          have hreports : (itemsOf (nestedFilter catalog options room 0) 0
              (segments l.tokens).1).Reports Failure.InClosed := by
            cases room with
            | zero => exact itemsOf_reports_of_lex (fun _ _ => nestedFilter_reports_zero ..) hlex 0 0
            | succ room => exact itemsOf_reports_of_lex filterLevel_reports hlex 0 0
          rw [filterLevel_of_lex hlex, hunclosed]
          cases hitems : (itemsOf (nestedFilter catalog options room 0) 0
              (segments l.tokens).1).result with
          | error e =>
              rw [Attempt.bind_of_error hitems]
              exact .told ⟨hreports.noted, .error (hreports.fails e hitems)⟩
          | ok items =>
              have hsolid : ∀ i ∈ items, i.text ≠ [] := itemsOf_solid hitems fun u hu => by
                obtain ⟨r, hr⟩ := (CutInto.of_lex hlex).stands hu
                exact hr.lexeme.text_ne_nil
              have hout := @Level.outputWith_nil ⟨items, sourceOf (t :: ts) ++ l.tail⟩ hsolid
              have hback : sourceOf (t :: ts) ++ l.tail = t.gap ++ '(' :: (sourceOf ts ++ l.tail) := by
                simp [Token.source, htext]
              rw [hback] at hout
              have hends := WholeEnds.opened hopened (itemsOf_replaced hitems) hreports.noted
              rw [Attempt.bind_of_ok hitems, closeLevel]
              change WholeEnds catalog options room sql ⟨.ok (Level.outputWith ⟨items, _⟩ []), _⟩
              rw [hback, hout]
              exact hends

end Whole

structure Problem.OfWhole (sql : Text) (q : Problem) : Prop where
  quote : ∀ n, q.failure = .unclosedQuote n → q.depth = 0 ∧ lex sql = .error n
  subselect : ∀ n, q.failure = .unclosedSubselect n →
    q.depth = 0 ∧ ∃ segs gap back, OpenedAt sql n segs gap back

theorem Problem.ofWhole_of_inClosed {q : Problem} (h : q.failure.InClosed) (sql : Text) :
    q.OfWhole sql where
  quote n hn := by
    rw [hn] at h
    cases h
  subselect n hn := by
    rw [hn] at h
    cases h

structure Contained (sql : Text) (problems : List Problem) : Prop where
  each : ∀ q ∈ problems, q.OfWhole sql
  once : problems.countP (fun q => q.failure.kind == "unterminated_subquery") ≤ 1

namespace Contained

variable {sql : Text} {problems : List Problem}

theorem countP_of_inClosed (h : ∀ q ∈ problems, q.failure.InClosed) :
    problems.countP (fun q => q.failure.kind == "unterminated_subquery") = 0 := by
  refine List.countP_eq_zero.2 fun q hq => ?_
  have hclosed := h q hq
  cases hfailure : q.failure with
  | unclosedSubselect | unclosedQuote | malformed =>
      rw [hfailure] at hclosed
      cases hclosed
  | unmatched | tooManyJoins | joinWithoutOn | nestedTooDeep => simp [Failure.kind]

theorem of_inClosed (h : ∀ q ∈ problems, q.failure.InClosed) : Contained sql problems where
  each q hq := Problem.ofWhole_of_inClosed (h q hq) sql
  once := by simp [countP_of_inClosed h]

theorem append_malformed (h : Contained sql problems) (reason : String) :
    Contained sql (problems ++ [⟨.malformed reason, 0⟩]) where
  each := List.forall_mem_append.2 ⟨h.each, List.forall_mem_singleton.2 ⟨nofun, nofun⟩⟩
  once := by simpa [Failure.kind] using h.once

theorem append_opened (h : ∀ q ∈ problems, q.failure.InClosed) {n : Nat} {segs : List Segment}
    {gap back : Text} (hopened : OpenedAt sql n segs gap back) :
    Contained sql (problems ++ [⟨.unclosedSubselect n, 0⟩]) where
  each := by
    refine List.forall_mem_append.2 ⟨(of_inClosed h).each, List.forall_mem_singleton.2 ⟨nofun, ?_⟩⟩
    rintro _ ⟨rfl⟩
    exact ⟨rfl, segs, gap, back, hopened⟩
  once := by
    rw [List.countP_append, countP_of_inClosed h]
    simp [Failure.kind]

theorem unread {n : Nat} (h : lex sql = .error n) : Contained sql [⟨.unclosedQuote n, 0⟩] where
  each := by
    refine List.forall_mem_singleton.2 ⟨?_, nofun⟩
    rintro _ ⟨rfl⟩
    exact ⟨rfl, h⟩
  once := by simp [Failure.kind]

end Contained

theorem WholeEnds.contained {catalog : Catalog} {options : Options} {room : Nat} {sql : Text}
    {x : Attempt Text} (h : WholeEnds catalog options room sql x) : Contained sql x.problems := by
  cases h with
  | unread h => exact .unread h
  | told h => exact .of_inClosed h.of_problems
  | opened hopened _ hnotes => exact .append_opened hnotes hopened

theorem WholeEnds.replaced {catalog : Catalog} {options : Options} {room : Nat} {sql : Text}
    {x : Attempt Text} (h : WholeEnds catalog options room sql x) {q : Problem} (hq : q ∈ x.problems)
    {n : Nat} (hn : q.failure = .unclosedSubselect n) :
    ∃ segs gap back, OpenedAt sql n segs gap back ∧ ∀ out, x.result = .ok out →
      ∃ front, Replaced (nestedFilter catalog options room 0) 0 segs front ∧
        out = front ++ (gap ++ '(' :: back) := by
  cases h with
  | unread h =>
      obtain rfl := List.mem_singleton.1 hq
      cases hn
  | told h =>
      have hclosed := h.of_problems q hq
      rw [hn] at hclosed
      cases hclosed
  | @opened m segs gap back front notes hopened hfront hnotes =>
      rcases List.mem_append.1 hq with hq | hq
      · have hclosed := hnotes q hq
        rw [hn] at hclosed
        cases hclosed
      · obtain rfl := List.mem_singleton.1 hq
        cases hn
        exact ⟨segs, gap, back, hopened, fun out hout => ⟨front, hfront, (Except.ok.inj hout).symm⟩⟩

namespace Policy

theorem outcomeOf_problems (sql : Text) (x : Attempt Text) :
    (outcomeOf sql x).problems = x.problems := by
  cases hresult : x.result with
  | ok out => simp only [outcomeOf, Attempt.problems, hresult]
  | error e => simp only [outcomeOf, Attempt.problems, hresult]

theorem attempt_problems (parse : Text → Except String Unit) (p : Policy) (sql : Text) :
    (p.attempt parse sql).problems = (p.filterWhole sql).problems ∨
      ∃ reason, (p.attempt parse sql).problems =
        (p.filterWhole sql).problems ++ [⟨.malformed reason, 0⟩] := by
  change (p.filterWhole sql >>= _).problems = _ ∨ ∃ reason, (p.filterWhole sql >>= _).problems = _
  cases hwhole : (p.filterWhole sql).result with
  | error e =>
      left
      rw [Attempt.bind_of_error hwhole, Attempt.problems, Attempt.problems, hwhole]
  | ok out =>
      have hnotes : (p.filterWhole sql).problems = (p.filterWhole sql).notes.problems := by
        rw [Attempt.problems, hwhole]
      rw [Attempt.bind_of_ok hwhole, hnotes]
      split
      · unfold verified Attempt.ofExcept
        split
        · rename_i reason _ _
          exact .inr ⟨reason, by simp [Attempt.problems]⟩
        · exact .inl (by simp [Attempt.problems])
      · exact .inl (by simp [Attempt.problems])

theorem filterWith_contained (parse : Text → Except String Unit) (p : Policy) (sql : Text) :
    (∀ before v, Visits p.catalog p.options (p.whole sql) before v → v.depth ≠ 0 →
      ∃ l, lex v.sql = .ok l ∧ (segments l.tokens).2 = []) ∧
    Contained sql (p.filterWhole sql).problems ∧
    Contained sql (p.filterWith parse sql).problems ∧
    ∀ q ∈ (p.filterWhole sql).problems, ∀ n, q.failure = .unclosedSubselect n →
      ∃ segs gap back, OpenedAt sql n segs gap back ∧ ∀ out, (p.filterWhole sql).result = .ok out →
        ∃ front, Replaced (nestedFilter p.catalog p.options p.options.maxDepth 0) 0 segs front ∧
          out = front ++ (gap ++ '(' :: back) := by
  have hends := filterLevel_wholeEnds p.catalog p.options p.options.maxDepth sql
  change WholeEnds _ _ _ sql (p.filterWhole sql) at hends
  refine ⟨fun before v hvisit hdepth => ?_, hends.contained, ?_, fun q hq n => hends.replaced hq⟩
  · rcases hvisit.here_or_closed with rfl | hclosed
    · exact absurd rfl hdepth
    · exact hclosed
  · unfold filterWith
    split
    · exact .of_inClosed nofun
    split
    · exact .of_inClosed nofun
    rw [outcomeOf_problems]
    rcases p.attempt_problems parse sql with hproblems | ⟨reason, hproblems⟩
    · rw [hproblems]
      exact hends.contained
    · rw [hproblems]
      exact hends.contained.append_malformed reason

theorem filterWith_contained_open :
    let p : Policy := ⟨⟨["hist_a".toList]⟩, ⟨"deleted".toList, 8, 8, true⟩⟩
    let sql := "SELECT * FROM (SELECT x FROM hist_a) q, (SELECT y FROM hist_a".toList
    (p.filterWith (fun _ => .ok ()) sql).problems = [⟨.unclosedSubselect 40, 0⟩] ∧
      ∃ segs gap back, OpenedAt sql 40 segs gap back ∧
        ∃ front, Replaced (nestedFilter p.catalog p.options 8 0) 0 segs front ∧
          (p.filterWith (fun _ => .ok ()) sql).result = front ++ (gap ++ '(' :: back) := by
  intro p sql
  have hresult : (p.filterWhole sql).result = .ok (p.filterWith (fun _ => .ok ()) sql).result := by
    decide +kernel
  have hproblem : ⟨.unclosedSubselect 40, 0⟩ ∈ (p.filterWhole sql).problems := by decide +kernel
  obtain ⟨-, -, -, hreplaced⟩ := p.filterWith_contained (fun _ => .ok ()) sql
  obtain ⟨segs, gap, back, hopened, hout⟩ := hreplaced _ hproblem 40 rfl
  obtain ⟨front, hfront, heq⟩ := hout _ hresult
  exact ⟨by decide +kernel, segs, gap, back, hopened, front, hfront, heq⟩

end Policy

end SoftDelete
