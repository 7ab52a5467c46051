import Mathlib.Data.List.Forall2
import SoftDelete.Proofs.Union.Bodies
import SoftDelete.Proofs.Union.Lookahead

namespace SoftDelete

section Traversal

variable {ε α β : Type} {f : α → Except ε β}

theorem mapM_eq_ok {as : List α} {bs : List β} :
    as.mapM f = .ok bs ↔ List.Forall₂ (fun a b => f a = .ok b) as bs := by
  induction as generalizing bs with
  | nil => cases bs <;> simp [pure, Except.pure]
  | cons a as ih =>
      rw [List.mapM_cons, List.forall₂_cons_left_iff]
      constructor
      · intro h
        obtain ⟨b, hhead, h⟩ := exists_of_bind_ok h
        obtain ⟨later, hlater, h⟩ := exists_of_bind_ok h
        cases h
        exact ⟨b, later, hhead, ih.1 hlater, rfl⟩
      · rintro ⟨b, later, hhead, hlater, rfl⟩
        rw [hhead, ih.2 hlater]
        rfl

theorem exists_of_mem_mapM {as : List α} {bs : List β} (h : as.mapM f = .ok bs) {b : β}
    (hb : b ∈ bs) : ∃ a ∈ as, f a = .ok b := by
  replace h := mapM_eq_ok.1 h
  induction h with
  | nil => cases hb
  | @cons a _ _ _ ha _ ih =>
      rcases List.mem_cons.1 hb with rfl | hb
      · exact ⟨a, by simp, ha⟩
      · obtain ⟨x, hx, hfx⟩ := ih hb
        exact ⟨x, List.mem_cons_of_mem a hx, hfx⟩

theorem mapM_eq_error {as : List α} {e : ε} :
    as.mapM f = .error e ↔ ∃ front a later, as = front ++ a :: later ∧
      (∀ x ∈ front, ∃ b, f x = .ok b) ∧ f a = .error e := by
  induction as with
  | nil => simp [pure, Except.pure]
  | cons a as ih =>
      rw [List.mapM_cons]
      constructor
      · intro h
        cases hhead : f a with
        | error e' =>
            rw [hhead] at h
            cases h
            exact ⟨[], a, as, rfl, by simp, hhead⟩
        | ok b =>
            cases hlater : as.mapM f with
            | error e' =>
                rw [hhead, hlater] at h
                cases h
                obtain ⟨front, x, later, rfl, hfront, hx⟩ := ih.1 hlater
                exact ⟨a :: front, x, later, rfl, by simpa using ⟨⟨b, hhead⟩, hfront⟩, hx⟩
            | ok later =>
                rw [hhead, hlater] at h
                cases h
      · rintro ⟨front, x, later, hsplit, hfront, hx⟩
        cases front with
        | nil =>
            obtain ⟨rfl, rfl⟩ := List.cons.inj hsplit
            rw [hx]
            rfl
        | cons y front =>
            obtain ⟨rfl, rfl⟩ := List.cons.inj hsplit
            obtain ⟨b, hhead⟩ := hfront a (by simp)
            rw [hhead, ih.2 ⟨front, x, later, rfl, fun z hz => hfront z (by simp [hz]), hx⟩]
            rfl

end Traversal

theorem Level.filterEdit_apart (catalog : Catalog) (options : Options) (l : Level) :
    (∀ r, (l.only r).source = l.source) ∧
    l.filterEdit catalog options =
      LevelEdit.concat <$> l.bodyRanges.mapM (seekBodyEdit catalog options l) ∧
    (∀ edit, l.filterEdit catalog options = .ok edit ↔
      ∃ parts, List.Forall₂ (fun r part => (l.only r).filterEdit catalog options = .ok part)
          l.bodyRanges parts ∧
        edit.edits = parts.flatMap LevelEdit.edits ∧
        edit.constrained = parts.flatMap LevelEdit.constrained) ∧
    (∀ e, l.filterEdit catalog options = .error e ↔
      ∃ front r later, l.bodyRanges = front ++ r :: later ∧
        (∀ s ∈ front, ∃ part, (l.only s).filterEdit catalog options = .ok part) ∧
        (l.only r).filterEdit catalog options = .error e) := by
  have hall : l.filterEdit catalog options = LevelEdit.concat <$> l.bodyRanges.mapM fun r =>
      (l.only r).filterEdit catalog options :=
    filterEdit_eq_mapM catalog options (bodyEdit_eq_only catalog options)
  refine ⟨l.only_source, filterEdit_eq_seek catalog options l, ?_, ?_⟩
  · intro edit
    simp only [hall, ← mapM_eq_ok]
    constructor
    · intro h
      rw [map_eq_pure_bind] at h
      obtain ⟨parts, hparts, hedit⟩ := exists_of_bind_ok h
      cases hedit
      exact ⟨parts, hparts, rfl, rfl⟩
    · rintro ⟨parts, hparts, hedits, hconstrained⟩
      obtain ⟨edits, constrained⟩ := edit
      cases hedits
      cases hconstrained
      rw [hparts]
      rfl
  · intro e
    rw [hall, ← mapM_eq_error]
    cases l.bodyRanges.mapM fun r => (l.only r).filterEdit catalog options with
    | error e' => exact ⟨fun h => by cases h; rfl, fun h => by cases h; rfl⟩
    | ok parts => exact ⟨nofun, nofun⟩

end SoftDelete
