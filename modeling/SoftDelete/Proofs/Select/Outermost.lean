import Mathlib.Data.List.Chain
import Mathlib.Data.List.Forall2
import SoftDelete.Proofs.Select.Closed

namespace SoftDelete

/-- As many parentheses are opened as closed within `inner`, and never fewer on the way, so that
`closing` is the first to bring the count behind `opening` back to zero. -/
structure Matched (opening : Token) (inner : List Token) (closing : Token) : Prop where
  opens : opening.kind = .lparen
  closes : closing.kind = .rparen
  stays : StaysOpen Token.kind? 0 inner
  balanced : closings Token.kind? inner = openings Token.kind? inner

theorem enclosed?_eq_some_iff {t closing : Token} {ts inner rest : List Token}
    (ht : t.kind = .lparen) :
    enclosed? Token.kind? 0 ts = some (inner, closing, rest) ↔
      ts = inner ++ closing :: rest ∧ Matched t inner closing := by
  constructor
  · intro h
    refine ⟨append_of_enclosed? h, ht, ?_, staysOpen_of_enclosed? h, ?_⟩
    · simpa [Token.kind?] using kind_of_enclosed? h
    · simpa using closings_of_enclosed? h
  · rintro ⟨rfl, h⟩
    have hclosing : Token.kind? closing = some .rparen := congrArg some h.closes
    exact enclosed?_of_counts hclosing h.stays (by simpa using h.balanced) rest

def Unmatched (t : Token) (ts : List Token) : Prop :=
  ∀ inner closing rest, ts = inner ++ closing :: rest → ¬ Matched t inner closing

theorem enclosed?_eq_none_iff {t : Token} {ts : List Token} (ht : t.kind = .lparen) :
    enclosed? Token.kind? 0 ts = none ↔ Unmatched t ts := by
  constructor
  · intro h inner closing rest hts hmatched
    rw [(enclosed?_eq_some_iff ht).2 ⟨hts, hmatched⟩] at h
    cases h
  · intro h
    rw [Option.eq_none_iff_forall_ne_some]
    rintro ⟨inner, closing, rest⟩ hsome
    obtain ⟨hts, hmatched⟩ := (enclosed?_eq_some_iff ht).1 hsome
    exact h inner closing rest hts hmatched

namespace Segment

def token? : Segment → Option Token
  | .token t => some t
  | .subselect .. => none

def Complete : Segment → Prop
  | .token _ => True
  | .subselect opening inner closing =>
      Matched opening inner closing ∧ inner.head?.any (·.spells "SELECT") = true

end Segment

def KeepApart (first second : Option Token) : Prop :=
  ∀ t u, first = some t → second = some u → opensSubselect t [u] = false

structure Outermost (ts : List Token) (segs : List Segment) (unclosed : List Token) : Prop where
  covers : segs.flatMap Segment.tokens ++ unclosed = ts
  complete : ∀ s ∈ segs, s.Complete
  apart : (segs.map Segment.token?).IsChain KeepApart
  unmatched : ∀ t rest, unclosed = t :: rest → opensSubselect t rest = true ∧ Unmatched t rest

theorem kind_of_opensSubselect {t : Token} {ts : List Token} (h : opensSubselect t ts = true) :
    t.kind = .lparen := by
  simpa using (Bool.and_eq_true_iff.1 h).1

namespace Outermost

variable {t : Token} {ts rest unclosed : List Token} {s : Segment} {segs : List Segment}

theorem nil : Outermost [] [] [] where
  covers := rfl
  complete := nofun
  apart := .nil
  unmatched := nofun

theorem of_unmatched (hopens : opensSubselect t ts = true) (h : Unmatched t ts) :
    Outermost (t :: ts) [] (t :: ts) where
  covers := rfl
  complete := nofun
  apart := .nil
  unmatched := by
    rintro _ _ ⟨rfl, rfl⟩
    exact ⟨hopens, h⟩

theorem tail (h : Outermost ts (s :: segs) unclosed) :
    Outermost (segs.flatMap Segment.tokens ++ unclosed) segs unclosed where
  covers := rfl
  complete s' hs' := h.complete s' (List.mem_cons_of_mem s hs')
  apart := h.apart.tail
  unmatched := h.unmatched

theorem not_opens (h : Outermost (t :: ts) (.token t :: segs) unclosed) :
    opensSubselect t ts = false := by
  have hts : segs.flatMap Segment.tokens ++ unclosed = ts := by
    simpa [Segment.tokens] using h.covers
  -- A parenthesis is no word, so what follows the token is no sub-select if it is `SELECT`.
  have hparen : ∀ u us, u.kind = .lparen → opensSubselect t (u :: us) = false := by
    intro u us hu
    simp [opensSubselect, Token.spells, hu]
  cases segs with
  | nil =>
      cases unclosed with
      | nil => simp [← hts, opensSubselect]
      | cons u us =>
          have hu := kind_of_opensSubselect (h.unmatched u us rfl).1
          rw [← hts]
          exact hparen u us hu
  | cons s segs =>
      rw [← hts]
      cases s with
      | token u =>
          obtain ⟨hapart, -⟩ := List.isChain_cons_cons.1 h.apart
          exact hapart t u rfl rfl
      | subselect opening inner closing =>
          obtain ⟨hmatched, -⟩ := h.complete (.subselect opening inner closing) (by simp)
          exact hparen opening _ hmatched.opens

theorem cons_token (hopens : opensSubselect t ts = false) (h : Outermost ts segs unclosed) :
    Outermost (t :: ts) (.token t :: segs) unclosed where
  covers := by simpa [Segment.tokens] using h.covers
  complete := List.forall_mem_cons.2 ⟨trivial, h.complete⟩
  apart := by
    refine List.isChain_cons.2 ⟨?_, h.apart⟩
    rintro v hv u w ⟨rfl⟩ rfl
    obtain ⟨segs', rfl⟩ : ∃ segs', segs = .token w :: segs' := by
      cases segs with
      | nil => cases hv
      | cons s segs =>
          cases s with
          | token w' =>
              cases hv
              exact ⟨segs, rfl⟩
          | subselect => cases hv
    rw [← h.covers] at hopens
    exact hopens
  unmatched := h.unmatched

theorem cons_subselect {opening closing : Token} {inner : List Token}
    (hcomplete : (Segment.subselect opening inner closing).Complete)
    (h : Outermost rest segs unclosed) :
    Outermost (opening :: (inner ++ closing :: rest)) (.subselect opening inner closing :: segs)
      unclosed where
  covers := by simpa [Segment.tokens] using h.covers
  complete := List.forall_mem_cons.2 ⟨hcomplete, h.complete⟩
  apart := by
    refine List.isChain_cons.2 ⟨?_, h.apart⟩
    rintro v hv u w ⟨⟩
  unmatched := h.unmatched

end Outermost

theorem segments_outermost (ts : List Token) : Outermost ts (segments ts).1 (segments ts).2 := by
  fun_induction segments ts with
  | case1 => exact .nil
  | case2 t ts hopens hnone =>
      exact .of_unmatched hopens ((enclosed?_eq_none_iff (kind_of_opensSubselect hopens)).1 hnone)
  | case3 t ts hopens inner closing rest henclosed later unclosed hs ih =>
      rw [hs] at ih
      obtain ⟨rfl, hmatched⟩ :=
        (enclosed?_eq_some_iff (kind_of_opensSubselect hopens)).1 henclosed
      refine .cons_subselect ⟨hmatched, ?_⟩ ih
      have hselect := (Bool.and_eq_true_iff.1 hopens).2
      cases inner with
      | nil => simp [Token.spells, hmatched.closes] at hselect
      | cons u inner => exact hselect
  | case4 t ts hopens later unclosed hs ih =>
      rw [hs] at ih
      exact .cons_token (by simpa using hopens) ih

theorem Outermost.opens_subselect {ts unclosed inner : List Token} {opening closing : Token}
    {segs : List Segment}
    (h : Outermost ts (.subselect opening inner closing :: segs) unclosed) :
    ∃ rest, ts = opening :: (inner ++ closing :: rest) ∧ Outermost rest segs unclosed ∧
      opensSubselect opening (inner ++ closing :: rest) = true ∧ Matched opening inner closing := by
  obtain ⟨hmatched, hselect⟩ := h.complete (.subselect opening inner closing) (by simp)
  refine ⟨_, ?_, h.tail, ?_, hmatched⟩
  · simpa [Segment.tokens] using h.covers.symm
  · cases inner with
    | nil => cases hselect
    | cons u inner => simpa [opensSubselect, hmatched.opens] using hselect

theorem Outermost.segments_eq {ts unclosed : List Token} {segs : List Segment}
    (h : Outermost ts segs unclosed) : segments ts = (segs, unclosed) := by
  induction segs generalizing ts with
  | nil =>
      obtain rfl : unclosed = ts := by simpa using h.covers
      cases unclosed with
      | nil => simp [segments]
      | cons t rest =>
          obtain ⟨hopens, hunmatched⟩ := h.unmatched t rest rfl
          have hnone := (enclosed?_eq_none_iff (kind_of_opensSubselect hopens)).2 hunmatched
          rw [segments, if_pos hopens]
          split
          · rfl
          · rename_i hsome
            cases hnone.symm.trans hsome
  | cons s segs ih =>
      cases s with
      | token t =>
          obtain ⟨rest, rfl⟩ : ∃ rest, ts = t :: rest :=
            ⟨_, by simpa [Segment.tokens] using h.covers.symm⟩
          have hrest : segs.flatMap Segment.tokens ++ unclosed = rest := by
            simpa [Segment.tokens] using h.covers
          rw [segments, if_neg (by simp [h.not_opens]), ← hrest, ih h.tail]
      | subselect opening inner closing =>
          obtain ⟨rest, rfl, hlater, hopens, hmatched⟩ := h.opens_subselect
          have hsome : enclosed? Token.kind? 0 (inner ++ closing :: rest) =
              some (inner, closing, rest) :=
            (enclosed?_eq_some_iff hmatched.opens).2 ⟨rfl, hmatched⟩
          rw [segments, if_pos hopens]
          split
          · rename_i hnone
            cases hsome.symm.trans hnone
          · rename_i hsome'
            cases hsome.symm.trans hsome'
            rw [ih hlater]

namespace Item

def token? : Item → Option Token
  | .token t => some t
  | .subselect .. => none

inductive StandsFor : Item → Segment → Prop where
  | token (t : Token) : StandsFor (.token t) (.token t)
  | subselect {opening closing : Token} {inner : List Token} {text body : Text}
      (hsource : opening.gap ++ text = (Segment.subselect opening inner closing).source) :
      StandsFor (.subselect opening.gap text body) (.subselect opening inner closing)

end Item

theorem itemsOf_standsFor {nested : Nat → Text → Attempt Text} {offset : Nat}
    {segs : List Segment} {items : List Item}
    (h : (itemsOf nested offset segs).result = .ok items) :
    List.Forall₂ Item.StandsFor items segs := by
  induction segs generalizing offset items with
  | nil =>
      cases h
      exact .nil
  | cons s segs ih =>
      cases s with
      | token t =>
          obtain ⟨later, hlater, rfl, -⟩ := itemsOf_token h
          exact .cons (.token t) (ih hlater)
      | subselect opening inner closing =>
          obtain ⟨start, stop, body, later, -, hlater, rfl, -⟩ := itemsOf_subselect h
          refine .cons (.subselect ?_) (ih hlater)
          simp [Segment.source, Segment.tokens, Token.source]

theorem token?_of_standsFor {items : List Item} {segs : List Segment}
    (h : List.Forall₂ Item.StandsFor items segs) :
    items.map Item.token? = segs.map Segment.token? := by
  induction h with
  | nil => rfl
  | @cons i s items segs hitem _ ih =>
      have hsame : i.token? = s.token? := by
        cases hitem <;> rfl
      rw [List.map_cons, List.map_cons, ih, hsame]

/-- Whatever filters the bodies, the items of a level stand one by one for a cut of its tokens into
the outermost sub-selects and the tokens around them, up to the first sub-select that is never
closed. There is one such cut only. -/
theorem itemsOf_outermost {nested : Nat → Text → Attempt Text} {offset : Nat} {ts : List Token}
    {items : List Item} (h : (itemsOf nested offset (segments ts).1).result = .ok items) :
    ∃ segs unclosed, segments ts = (segs, unclosed) ∧ List.Forall₂ Item.StandsFor items segs ∧
      Outermost ts segs unclosed ∧ (items.map Item.token?).IsChain KeepApart ∧
      ∀ segs' unclosed', Outermost ts segs' unclosed' → segs' = segs ∧ unclosed' = unclosed := by
  have hstands := itemsOf_standsFor h
  have houtermost := segments_outermost ts
  refine ⟨_, _, rfl, hstands, houtermost, ?_, fun segs' unclosed' h' => ?_⟩
  · rw [token?_of_standsFor hstands]
    exact houtermost.apart
  · have heq := h'.segments_eq
    rw [heq]
    exact ⟨rfl, rfl⟩

theorem itemsOf_outermost_nested :
    let sql := "SELECT ((SELECT 1), (2)) FROM (SELECT (SELECT b)) t WHERE (x IN (SELECT (c"
    let ts := match lex sql.toList with
      | .ok l => l.tokens
      | .error _ => []
    let read := itemsOf (fun _ body => pure body) 0 (segments ts).1
    (segments ts).2.map Token.text = [['('], "SELECT".toList, ['('], ['c']] ∧
      ∃ items, read.result = .ok items ∧
        ∃ segs unclosed, segments ts = (segs, unclosed) ∧
          List.Forall₂ Item.StandsFor items segs ∧ Outermost ts segs unclosed ∧
          (items.map Item.token?).IsChain KeepApart ∧
          ∀ segs' unclosed', Outermost ts segs' unclosed' → segs' = segs ∧ unclosed' = unclosed := by
  intro sql ts read
  have hunclosed : (segments ts).2.map Token.text = [['('], "SELECT".toList, ['('], ['c']] := by
    decide +kernel
  obtain ⟨items, hitems, -⟩ : ∃ items, read.result = .ok items ∧ True :=
    exists_ok_of_any (by decide +kernel)
  exact ⟨hunclosed, items, hitems, itemsOf_outermost hitems⟩

end SoftDelete
