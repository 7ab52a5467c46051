import SoftDelete.Proofs.Join.Failures
import SoftDelete.Proofs.Select.Closed

namespace SoftDelete

structure Attempt.Reports {α : Type} (P : Failure → Prop) (x : Attempt α) : Prop where
  noted : ∀ q ∈ x.notes.problems, P q.failure
  fails : FailsWith P x.result

namespace Attempt.Reports

variable {α β : Type} {P : Failure → Prop}

theorem pure (a : α) : (Pure.pure a : Attempt α).Reports P where
  noted := nofun
  fails := .ok a

theorem ofExcept {x : Except Failure α} (h : FailsWith P x) : (ofExcept x).Reports P where
  noted := nofun
  fails := h

theorem constrain (tables : List Text) : (constrain tables).Reports P where
  noted := nofun
  fails := .ok ()

theorem note {failure : Failure} (h : P failure) (depth : Nat) : (note failure depth).Reports P where
  noted q hq := by
    obtain rfl := List.mem_singleton.1 hq
    exact h
  fails := .ok ()

theorem bind {x : Attempt α} {f : α → Attempt β} (hx : x.Reports P)
    (hf : ∀ a, x.result = .ok a → (f a).Reports P) : (x >>= f).Reports P := by
  cases h : x.result with
  | error e =>
      rw [bind_of_error h]
      exact ⟨hx.noted, .error (hx.fails e h)⟩
  | ok a =>
      rw [bind_of_ok h]
      refine ⟨fun q hq => ?_, (hf a h).fails⟩
      rcases List.mem_append.1 hq with hq | hq
      · exact hx.noted q hq
      · exact (hf a h).noted q hq

end Attempt.Reports

def Failure.InClosed : Failure → Prop
  | .unmatched _ | .tooManyJoins _ | .joinWithoutOn _ | .nestedTooDeep _ => True
  | _ => False

theorem Failure.InLevel.inClosed {e : Failure} (h : e.InLevel) : e.InClosed := by
  cases e <;> trivial

open Failure

variable {catalog : Catalog} {options : Options}

theorem bodyEdit_fails (l : Level) (start : Nat) (body : List Item) :
    FailsWith InLevel (bodyEdit catalog options l start body) := by
  unfold bodyEdit
  dsimp only
  split
  · have hparse := fun start items after => (References.parse_fails Reading.maxNesting
      options.maxJoins start items after).mono fun _ => InReferences.inLevel
    exact (hparse _ _ _).bind fun r => (References.edits_fails l options.column r _).bind
      fun _ => .ok _
  · exact .ok _

theorem bodyEdits_fails (l : Level) (start : Nat) (bs : List (List Item)) :
    FailsWith InLevel (bodyEdits catalog options l start bs) := by
  induction bs generalizing start with
  | nil => exact .ok _
  | cons body later ih =>
      exact (bodyEdit_fails l start body).bind fun _ => (ih _).bind fun _ => .ok _

theorem itemsOf_reports {P : Failure → Prop} {nested : Nat → Text → Attempt Text}
    {segs : List Segment} (h : ∀ opening inner closing, .subselect opening inner closing ∈ segs →
      ∀ start, (nested start (sourceOf inner ++ closing.gap)).Reports P) (offset : Nat) :
    (itemsOf nested offset segs).Reports P := by
  induction segs generalizing offset with
  | nil => exact .pure []
  | cons s segs ih =>
      have hlater := ih fun opening inner closing hmem =>
        h opening inner closing (List.mem_cons_of_mem s hmem)
      cases s with
      | token t =>
          rw [itemsOf]
          exact (hlater _).bind fun _ _ => .pure _
      | subselect opening inner closing =>
          rw [itemsOf]
          exact (h opening inner closing (List.mem_cons_self ..) _).bind fun _ _ =>
            (hlater _).bind fun _ _ => .pure _

theorem closeLevel_reports (depth start : Nat) (items : List Item) (tail : Text) :
    (closeLevel catalog options depth start items [] tail).Reports InClosed := by
  rw [closeLevel]
  split
  · have hedit := (@bodyEdits_fails catalog options ⟨items, tail⟩ 0 (bodies items)).mono fun _ => InLevel.inClosed
    exact (Attempt.Reports.ofExcept hedit).bind fun _ _ => (Attempt.Reports.constrain _).bind
      fun _ _ => .pure _
  · exact .pure _

theorem nestedFilter_reports_zero (depth start : Nat) (sql : Text) :
    (nestedFilter catalog options 0 depth start sql).Reports InClosed :=
  (Attempt.Reports.note trivial _).bind fun _ _ => .pure _

theorem itemsOf_reports_of_lex {room : Nat}
    (h : ∀ {depth offset sql l}, lex sql = .ok l → (segments l.tokens).2 = [] →
      (nestedFilter catalog options room depth offset sql).Reports InClosed) {sql : Text} {l : Lexed}
    (hlex : lex sql = .ok l) (depth offset : Nat) :
    (itemsOf (nestedFilter catalog options room depth) offset (segments l.tokens).1).Reports
      InClosed := by
  refine itemsOf_reports (fun opening inner closing hmem start => ?_) offset
  obtain ⟨m, hm, hclosed⟩ := (CutInto.of_lex hlex).body_closed hmem
  exact h hm hclosed

theorem filterLevel_reports {room depth offset : Nat} {sql : Text} {l : Lexed}
    (hlex : lex sql = .ok l) (hclosed : (segments l.tokens).2 = []) :
    (filterLevel catalog options room depth offset sql).Reports InClosed := by
  induction room generalizing depth offset sql l with
  | zero =>
      rw [filterLevel_of_lex hlex, hclosed]
      exact (itemsOf_reports_of_lex (fun _ _ => nestedFilter_reports_zero ..) hlex depth offset).bind
        fun _ _ => closeLevel_reports ..
  | succ room ih =>
      rw [filterLevel_of_lex hlex, hclosed]
      exact (itemsOf_reports_of_lex ih hlex depth offset).bind fun _ _ => closeLevel_reports ..

end SoftDelete
