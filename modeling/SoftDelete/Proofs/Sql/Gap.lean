import SoftDelete.Sql.Lexed

namespace SoftDelete

def ClosedGap (g : Text) : Prop :=
  ∀ s, gapLength .between (g ++ s) = g.length + gapLength .between s

theorem opensLineComment_iff {c : Char} {s : Text} :
    opensLineComment c s = true ↔ c = '#' ∨ (c = '-' ∧ (s = ['-'] ∨
      ∃ d t, s = '-' :: d :: t ∧ (isBlank d || isControl d) = true)) := by
  constructor
  · intro h
    unfold opensLineComment at h
    split at h
    · exact .inl rfl
    · exact .inr ⟨rfl, .inl rfl⟩
    · rename_i d t
      exact .inr ⟨rfl, .inr ⟨d, t, rfl, h⟩⟩
    · cases h
  · rintro (rfl | ⟨rfl, rfl | ⟨d, t, rfl, hd⟩⟩)
    · rfl
    · rfl
    · exact hd

namespace GapState

def next : GapState → Char → Text → Option GapState
  | .between, c, s =>
      if isBlank c then some .between
      else if opensLineComment c s then some .lineComment
      else if c == '/' && s.head? == some '*' then some .opening
      else none
  | .lineComment, c, _ => some (if c == '\n' then .between else .lineComment)
  | .opening, _, _ => some .blockComment
  | .blockComment, c, s =>
      some (if c == '*' && s.head? == some '/' then .closing else .blockComment)
  | .closing, _, _ => some .between

end GapState

theorem gapLength_cons (st : GapState) (c : Char) (s : Text) :
    gapLength st (c :: s) =
      match st.next c s with
      | some st' => gapLength st' s + 1
      | none => 0 := by
  cases st with
  | between =>
      simp only [gapLength, GapState.next]
      split
      · rfl
      · split
        · rfl
        · split <;> rfl
  | _ => rfl

theorem gapLength_pos {st : GapState} (hst : st ≠ .between) (c : Char) (s : Text) :
    0 < gapLength st (c :: s) := by
  cases st with
  | between => exact absurd rfl hst
  | _ => simp [gapLength]

theorem opensLineComment_append {c d : Char} {g s : Text}
    (h : opensLineComment c (g ++ d :: s) = true)
    (hg : gapLength .lineComment (g ++ d :: s) = g.length) (r : Text) :
    opensLineComment c (g ++ r) = true := by
  have hpos : 0 < gapLength .lineComment (d :: s) := gapLength_pos (by simp) d s
  rcases opensLineComment_iff.1 h with rfl | ⟨rfl, hs | ⟨e, t, hs, he⟩⟩
  · rfl
  · cases g with
    | nil =>
        simp only [List.nil_append, List.length_nil] at hg
        omega
    | cons f g => simp at hs
  · match g with
    | [] =>
        simp only [List.nil_append, List.length_nil] at hg
        omega
    | [f] =>
        obtain ⟨rfl, rfl, rfl⟩ : f = '-' ∧ d = e ∧ s = t := by simpa using hs
        have hg' : gapLength .lineComment (d :: s) = 0 := by
          simpa [gapLength_cons .lineComment '-', GapState.next] using hg
        omega
    | f :: e' :: g =>
        obtain ⟨rfl, rfl, rfl⟩ : f = '-' ∧ e' = e ∧ g ++ d :: s = t := by simpa using hs
        exact he

theorem next_append {st st' : GapState} {g : Text} {c d : Char} {s : Text}
    (h : st.next d (g ++ c :: s) = some st') (hg : gapLength st' (g ++ c :: s) = g.length)
    (r : Text) : st.next d (g ++ r) = some st' := by
  have hnil : st' ≠ .between → g ≠ [] := by
    rintro hst' rfl
    have hpos := gapLength_pos hst' c s
    rw [List.nil_append, List.length_nil] at hg
    omega
  have hhead : g ≠ [] → (g ++ r).head? = (g ++ c :: s).head? := by
    intro hne
    cases g with
    | nil => exact absurd rfl hne
    | cons e g => rfl
  cases st with
  | between =>
      simp only [GapState.next] at h ⊢
      split at h
      · rename_i hblank
        rw [if_pos hblank, h]
      · rename_i hblank
        rw [if_neg hblank]
        split at h
        · rename_i hline
          cases h
          rw [if_pos (opensLineComment_append hline hg r)]
        · split at h
          · rename_i hblock
            cases h
            simp only [Bool.and_eq_true, beq_iff_eq] at hblock
            obtain ⟨rfl, hstar⟩ := hblock
            have hline : ¬ opensLineComment '/' (g ++ r) = true := by simp [opensLineComment_iff]
            rw [if_neg hline, hhead (hnil (by simp)), hstar]
            rfl
          · cases h
  | blockComment =>
      simp only [GapState.next, Option.some.injEq] at h ⊢
      by_cases hne : g = []
      · subst hne
        have : st' ≠ .between := by
          rintro rfl
          split at h <;> cases h
        exact absurd rfl (hnil this)
      · rw [hhead hne, h]
  | _ => exact h

theorem gapLength_append {st : GapState} {g : Text} {c : Char} {s : Text}
    (h : gapLength st (g ++ c :: s) = g.length) (r : Text) :
    gapLength st (g ++ r) = g.length + gapLength .between r := by
  -- What follows is a token, so the scan is between two tokens at the end of the gap.
  induction g generalizing st with
  | nil =>
      cases st with
      | between => simp
      | _ => simp [gapLength] at h
  | cons d g ih =>
      rw [List.cons_append, gapLength_cons] at h ⊢
      cases hnext : st.next d (g ++ c :: s) with
      | none => simp [hnext] at h
      | some st' =>
          simp only [hnext, List.length_cons, Nat.add_right_cancel_iff] at h
          simp only [next_append hnext h r, ih h, List.length_cons]
          exact Nat.add_right_comm _ _ _

theorem closedGap_of_length {g : Text} {c : Char} {s : Text}
    (h : gapLength .between (g ++ c :: s) = g.length) : ClosedGap g :=
  gapLength_append h

theorem closedGap_nil : ClosedGap [] := fun s => by simp

theorem closedGap_blank {c : Char} (h : isBlank c = true) : ClosedGap [c] := fun s => by
  simp [gapLength, h, Nat.add_comm]

theorem ClosedGap.append {g h : Text} (hg : ClosedGap g) (hh : ClosedGap h) :
    ClosedGap (g ++ h) := fun s => by
  rw [List.append_assoc, hg, hh, List.length_append, Nat.add_assoc]

theorem ClosedGap.blank {c : Char} (h : ClosedGap [c]) : isBlank c = true := by
  cases hblank : isBlank c with
  | true => rfl
  | false =>
      have hx : gapLength .between [c, 'x'] = 1 := h ['x']
      have hline : gapLength .lineComment ['x'] = 1 := rfl
      rw [gapLength_cons] at hx
      simp only [GapState.next, hblank] at hx
      by_cases hopens : opensLineComment c ['x'] = true
      · simp [hopens, hline] at hx
      · simp [hopens] at hx

end SoftDelete
