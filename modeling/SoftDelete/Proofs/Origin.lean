import SoftDelete.Proofs.Containment

namespace SoftDelete

inductive Report where
  | noted (q : Problem)
  | ended (e : Failure)

namespace Attempt

variable {α β : Type}

def Gives (x : Attempt α) : Report → Prop
  | .noted q => q ∈ x.notes.problems
  | .ended e => x.result = .error e

theorem not_gives_pure (a : α) (r : Report) : ¬ (pure a : Attempt α).Gives r := by
  cases r <;> nofun

theorem Gives.of_bind {x : Attempt α} {f : α → Attempt β} {r : Report} (h : (x >>= f).Gives r) :
    x.Gives r ∨ ∃ a, x.result = .ok a ∧ (f a).Gives r := by
  cases hx : x.result with
  | error e =>
      rw [bind_of_error hx] at h
      cases r with
      | noted q => exact .inl h
      | ended e' =>
          cases h
          exact .inl hx
  | ok a =>
      rw [bind_of_ok hx] at h
      cases r with
      | noted q => exact (List.mem_append.1 h).imp_right fun h => ⟨a, rfl, h⟩
      | ended e => exact .inr ⟨a, rfl, h⟩

end Attempt

section Segments

variable {nested : Nat → Text → Attempt Text} {offset : Nat} {segs front later : List Segment}
  {opening closing : Token} {inner : List Token}

structure Reached (nested : Nat → Text → Attempt Text) (offset : Nat)
    (segs front later : List Segment) (opening : Token) (inner : List Token) (closing : Token) :
    Prop where
  split : segs = front ++ .subselect opening inner closing :: later
  done : ∃ items, (itemsOf nested offset front).result = .ok items

theorem Reached.behind_token {t : Token}
    (h : Reached nested (offset + Text.byteSize t.source) segs front later opening inner closing) :
    Reached nested offset (.token t :: segs) (.token t :: front) later opening inner closing := by
  obtain ⟨rfl, items, hitems⟩ := h
  refine ⟨rfl, .token t :: items, ?_⟩
  rw [itemsOf, Attempt.bind_of_ok hitems]
  rfl

theorem Reached.behind_subselect {first last : Token} {within : List Token} {body : Text}
    (hbody : (nested (offset + Text.byteSize first.source)
      (sourceOf within ++ last.gap)).result = .ok body)
    (h : Reached nested (offset + Text.byteSize (Segment.subselect first within last).source) segs
      front later opening inner closing) :
    Reached nested offset (.subselect first within last :: segs)
      (.subselect first within last :: front) later opening inner closing := by
  obtain ⟨rfl, items, hitems⟩ := h
  refine ⟨rfl, ?_⟩
  rw [itemsOf, Attempt.bind_of_ok hbody, Attempt.bind_of_ok hitems]
  exact ⟨_, rfl⟩

theorem exists_reached {r : Report} (h : (itemsOf nested offset segs).Gives r) :
    ∃ front later opening inner closing,
      Reached nested offset segs front later opening inner closing ∧
      (nested (offset + Text.byteSize (front.flatMap Segment.source ++ opening.source))
        (sourceOf inner ++ closing.gap)).Gives r := by
  induction segs generalizing offset with
  | nil => exact absurd h (Attempt.not_gives_pure _ r)
  | cons s segs ih =>
      cases s with
      | token t =>
          rw [itemsOf] at h
          rcases h.of_bind with h | ⟨items, -, h⟩
          · obtain ⟨front, later, opening, inner, closing, hreached, h⟩ := ih h
            refine ⟨_, _, _, _, _, hreached.behind_token, ?_⟩
            simpa [Segment.source, Segment.tokens, Nat.add_assoc] using h
          · exact absurd h (Attempt.not_gives_pure _ r)
      | subselect first within last =>
          rw [itemsOf] at h
          rcases h.of_bind with h | ⟨body, hbody, h⟩
          · exact ⟨[], segs, first, within, last, ⟨rfl, [], rfl⟩, by simpa using h⟩
          rcases h.of_bind with h | ⟨items, -, h⟩
          · obtain ⟨front, later, opening, inner, closing, hreached, h⟩ := ih h
            refine ⟨_, _, _, _, _, hreached.behind_subselect hbody, ?_⟩
            simpa [Nat.add_assoc] using h
          · exact absurd h (Attempt.not_gives_pure _ r)

end Segments

inductive Visit.Gives (catalog : Catalog) (options : Options) (v : Visit) : Report → Prop where
  | unread {offset : Nat} (h : lex v.sql = .error offset) :
      Gives catalog options v (.ended (.unclosedQuote offset))
  | unclosed {l : Lexed} (hlex : lex v.sql = .ok l) (hunclosed : (segments l.tokens).2 ≠ []) :
      Gives catalog options v (.noted
        ⟨.unclosedSubselect (unclosedAt v.offset (segments l.tokens).1 (segments l.tokens).2),
          v.depth⟩)
  | tooDeep {l : Lexed} {opening closing : Token} {inner : List Token} (hroom : v.room = 0)
      (hlex : lex v.sql = .ok l)
      (hmem : .subselect opening inner closing ∈ (segments l.tokens).1) :
      Gives catalog options v (.noted ⟨.nestedTooDeep options.maxDepth, v.depth + 1⟩)
  | refused {l : Lexed} {items : List Item} {e : Failure} (hlex : lex v.sql = .ok l)
      (hclosed : (segments l.tokens).2 = [])
      (hitems : (itemsOf (nestedFilter catalog options v.room v.depth) v.offset
        (segments l.tokens).1).result = .ok items)
      (hedit : (Level.mk items l.tail).filterEdit catalog options = .error e) :
      Gives catalog options v (.ended e)

section Runs

variable {catalog : Catalog} {options : Options} {v w : Visit} {before : Notes} {r : Report}

theorem Visits.depth_add_room (h : Visits catalog options v before w) :
    w.depth + w.room = v.depth + v.room := by
  induction h with
  | here v => rfl
  | inside hroom _ _ _ _ ih =>
      rw [ih, hroom]
      simp only [Visit.inside]
      omega

theorem Visit.Gives.of_unread {n : Nat} (hlex : lex v.sql = .error n)
    (h : (v.run catalog options).Gives r) : v.Gives catalog options r := by
  have hrun : v.run catalog options = ⟨.error (.unclosedQuote n), .empty⟩ := by
    rw [Visit.run, filterLevel_eq, Lexed.ofText, hlex]
    rfl
  rw [hrun] at h
  cases r with
  | noted q => cases h
  | ended e =>
      cases h
      exact .unread hlex

theorem Visit.Gives.of_closeLevel {l : Lexed} {items : List Item} (hlex : lex v.sql = .ok l)
    (hitems : (itemsOf (nestedFilter catalog options v.room v.depth) v.offset
      (segments l.tokens).1).result = .ok items)
    (h : (closeLevel catalog options v.depth
      (unclosedAt v.offset (segments l.tokens).1 (segments l.tokens).2) items
      (segments l.tokens).2 l.tail).Gives r) : v.Gives catalog options r := by
  unfold closeLevel at h
  split at h
  · rename_i t ts hunclosed
    have hne : (segments l.tokens).2 ≠ [] := by simp [hunclosed]
    rcases h.of_bind with h | ⟨_, -, h⟩
    · cases r with
      | noted q =>
          obtain rfl := List.mem_singleton.1 h
          exact .unclosed hlex hne
      | ended e => cases h
    · exact absurd h (Attempt.not_gives_pure _ r)
  · rename_i hclosed
    split at h
    · rcases h.of_bind with h | ⟨edit, -, h⟩
      · cases r with
        | noted q => cases h
        | ended e => exact .refused hlex hclosed hitems h
      rcases h.of_bind with h | ⟨_, -, h⟩
      · cases r <;> cases h
      · exact absurd h (Attempt.not_gives_pure _ r)
    · exact absurd h (Attempt.not_gives_pure _ r)

theorem exists_visit_of_gives (h : (v.run catalog options).Gives r) :
    ∃ before w, Visits catalog options v before w ∧ w.Gives catalog options r := by
  obtain ⟨room, depth, offset, sql⟩ := v
  induction room generalizing depth offset sql with
  | zero =>
      cases hlex : lex sql with
      | error n => exact ⟨_, _, .here _, .of_unread hlex h⟩
      | ok l =>
          rw [Visit.run, filterLevel_of_lex hlex] at h
          rcases h.of_bind with h | ⟨items, hitems, h⟩
          · obtain ⟨front, later, opening, inner, closing, hreached, h⟩ := exists_reached h
            have hmem : .subselect opening inner closing ∈ (segments l.tokens).1 := by
              simp [hreached.split]
            rcases h.of_bind with h | ⟨_, -, h⟩
            · cases r with
              | noted q =>
                  obtain rfl := List.mem_singleton.1 h
                  exact ⟨_, _, .here _, .tooDeep rfl hlex hmem⟩
              | ended e => cases h
            · exact absurd h (Attempt.not_gives_pure _ r)
          · exact ⟨_, _, .here _, .of_closeLevel hlex hitems h⟩
  | succ room ih =>
      cases hlex : lex sql with
      | error n => exact ⟨_, _, .here _, .of_unread hlex h⟩
      | ok l =>
          rw [Visit.run, filterLevel_of_lex hlex] at h
          rcases h.of_bind with h | ⟨items, hitems, h⟩
          · obtain ⟨front, later, opening, inner, closing, hreached, h⟩ := exists_reached h
            obtain ⟨items, hfront⟩ := hreached.done
            obtain ⟨before, w, hvisits, hgives⟩ := ih _ _ _ h
            exact ⟨_, w, .inside rfl hlex hreached.split hfront hvisits, hgives⟩
          · exact ⟨_, _, .here _, .of_closeLevel hlex hitems h⟩

end Runs

namespace Policy

/-- Every problem that is told comes from a level that the run on the statement came to. What is noted
there has its depth, and a sub-select that is too deep one more. What the run fails with is told with
depth zero, although it may come from a level far below. -/
theorem filterWith_problem_origin {p : Policy} (hverify : p.options.verifyOutput = false)
    (parse : Text → Except String Unit) {sql : Text} {q : Problem}
    (hq : q ∈ (p.filterWith parse sql).problems) :
    ∃ before v, Visits p.catalog p.options (p.whole sql) before v ∧
      v.depth + v.room = p.options.maxDepth ∧
      (v.Gives p.catalog p.options (.noted q) ∨
        (q.depth = 0 ∧ v.Gives p.catalog p.options (.ended q.failure))) := by
  have hattempt : p.attempt parse sql = p.filterWhole sql := by
    have hverified : ∀ filtered, ¬ (p.options.verifyOutput = true ∧ filtered ≠ sql) := by
      simp [hverify]
    simp only [attempt, if_neg (hverified _)]
    exact bind_pure _
  have htold : q ∈ (p.filterWhole sql).problems := by
    unfold filterWith at hq
    split at hq
    · cases hq
    split at hq
    · cases hq
    rwa [outcomeOf_problems, hattempt] at hq
  have horigin : ∀ {r : Report}, ((p.whole sql).run p.catalog p.options).Gives r →
      ∃ before v, Visits p.catalog p.options (p.whole sql) before v ∧
        v.depth + v.room = p.options.maxDepth ∧ v.Gives p.catalog p.options r := by
    intro r h
    obtain ⟨before, v, hvisits, hgives⟩ := exists_visit_of_gives h
    refine ⟨before, v, hvisits, ?_, hgives⟩
    rw [hvisits.depth_add_room, whole, Nat.zero_add]
  unfold Attempt.problems at htold
  split at htold
  · obtain ⟨before, v, hvisits, hdepth, hgives⟩ := @horigin (.noted q) htold
    exact ⟨before, v, hvisits, hdepth, .inl hgives⟩
  · rename_i e he
    rcases List.mem_append.1 htold with hnoted | hended
    · obtain ⟨before, v, hvisits, hdepth, hgives⟩ := @horigin (.noted q) hnoted
      exact ⟨before, v, hvisits, hdepth, .inl hgives⟩
    · obtain rfl := List.mem_singleton.1 hended
      obtain ⟨before, v, hvisits, hdepth, hgives⟩ := @horigin (.ended e) he
      exact ⟨before, v, hvisits, hdepth, .inr ⟨rfl, hgives⟩⟩

example :
    let p : Policy := ⟨⟨["hist_a".toList]⟩, ⟨"deleted".toList, 8, 8, false⟩⟩
    let sql := "SELECT * FROM plain WHERE id IN (SELECT id FROM hist_a FORCE INDEX (i))".toList
    (p.filterWith (fun _ => .ok ()) sql).problems =
      [⟨.unmatched "expected a join, found \x60FORCE\x60", 0⟩] := by
  decide +kernel

end Policy

end SoftDelete
