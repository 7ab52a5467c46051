import SoftDelete.Proofs.Sql.Gap

namespace SoftDelete

/-- A comment up to the end of its line. Two dashes are one only in front of white space or a control
character. -/
inductive LineComment : Text → Prop
  | sharp {body : Text} (hbody : '\n' ∉ body) : LineComment ('#' :: body)
  | dashes {body : Text} (hbody : '\n' ∉ body)
      (hhead : ∀ c ∈ body.head?, (isBlank c || isControl c) = true) : LineComment ('-' :: '-' :: body)

/-- White space and comments. A comment is left open only where `last` holds. -/
inductive Filler (last : Prop) : Text → Prop
  | nil : Filler last []
  | blank {c : Char} {s : Text} (hc : isBlank c = true) (hs : Filler last s) : Filler last (c :: s)
  | line {c s : Text} (hc : LineComment c) (hs : Filler last s) : Filler last (c ++ '\n' :: s)
  | block {body s : Text} (hbody : ¬ ['*', '/'] <:+: body ++ ['*']) (hs : Filler last s) :
      Filler last ('/' :: '*' :: (body ++ '*' :: '/' :: s))
  | openLine {c : Text} (hlast : last) (hc : LineComment c) : Filler last c
  | openBlock {body : Text} (hlast : last) (hbody : ¬ ['*', '/'] <:+: body) :
      Filler last ('/' :: '*' :: body)

section

variable {last : Prop} {c : Char} {body s g r : Text}

theorem Filler.mono {last' : Prop} (h : Filler last g) (himp : last → last') : Filler last' g := by
  induction h with
  | nil => exact .nil
  | blank hc _ ih => exact .blank hc ih
  | line hc _ ih => exact .line hc ih
  | block hbody _ ih => exact .block hbody ih
  | openLine hlast hc => exact .openLine (himp hlast) hc
  | openBlock hlast hbody => exact .openBlock (himp hlast) hbody

theorem LineComment.of_opens (h : opensLineComment c (body ++ r) = true) (hbody : '\n' ∉ body)
    (hr : ∀ d ∈ r.head?, d = '\n') : LineComment (c :: body) := by
  rcases opensLineComment_iff.1 h with rfl | ⟨rfl, hdashes⟩
  · exact .sharp hbody
  -- The second dash does not end the line, so it belongs to the comment.
  obtain ⟨rest, hrest, hhead⟩ : ∃ rest, body ++ r = '-' :: rest ∧
      ∀ d ∈ rest.head?, (isBlank d || isControl d) = true := by
    rcases hdashes with hdash | ⟨d, t, hdash, hd⟩
    · exact ⟨[], hdash, by simp⟩
    · exact ⟨d :: t, hdash, by simpa using hd⟩
  cases body with
  | nil =>
      rw [List.nil_append] at hrest
      exact absurd (hr '-' (by simp [hrest])) (by decide)
  | cons e body =>
      obtain ⟨rfl, rfl⟩ := List.cons.inj hrest
      refine .dashes (fun hmem => hbody (List.mem_cons_of_mem _ hmem)) fun d hd => hhead d ?_
      simp [Option.mem_def.1 hd]

def Filler.EndsBlock (last : Prop) (g : Text) : Prop :=
  (last ∧ ¬ ['*', '/'] <:+: g) ∨
    ∃ body s, g = body ++ '*' :: '/' :: s ∧ ¬ ['*', '/'] <:+: body ++ ['*'] ∧ Filler last s

def Filler.EndsLine (last : Prop) (g : Text) : Prop :=
  (last ∧ '\n' ∉ g) ∨ ∃ body s, g = body ++ '\n' :: s ∧ '\n' ∉ body ∧ Filler last s

theorem Filler.EndsBlock.cons (h : Filler.EndsBlock last s) (hc : ¬ ['*', '/'] <+: c :: s) :
    Filler.EndsBlock last (c :: s) := by
  rcases h with ⟨hlast, hs⟩ | ⟨body, rest, rfl, hbody, hrest⟩
  · exact .inl ⟨hlast, fun hinfix => (List.infix_cons_iff.1 hinfix).elim hc hs⟩
  · have hprefix : c :: (body ++ ['*']) <+: c :: (body ++ '*' :: '/' :: rest) := by simp
    refine .inr ⟨c :: body, rest, rfl, fun hinfix => ?_, hrest⟩
    exact (List.infix_cons_iff.1 hinfix).elim (fun hmark => hc (hmark.trans hprefix)) hbody

theorem Filler.EndsLine.cons (h : Filler.EndsLine last s) (hc : c ≠ '\n') :
    Filler.EndsLine last (c :: s) := by
  rcases h with ⟨hlast, hs⟩ | ⟨body, rest, rfl, hbody, hrest⟩
  · exact .inl ⟨hlast, by simp [hc.symm, hs]⟩
  · exact .inr ⟨c :: body, rest, rfl, by simp [hc.symm, hbody], hrest⟩

/-- What the rest of a gap is if the scan of it has come to the state. -/
def GapState.Ends (last : Prop) : GapState → Text → Prop
  | .between, g => Filler last g
  | .lineComment, g => Filler.EndsLine last g
  | .opening, g => ∀ c s, g = c :: s → Filler.EndsBlock last s
  | .blockComment, g => Filler.EndsBlock last g
  | .closing, g => ∀ c s, g = c :: s → Filler last s

theorem Filler.of_endsLine (h : Filler.EndsLine (r = []) g)
    (hopens : opensLineComment c (g ++ r) = true) : Filler (r = []) (c :: g) := by
  rcases h with ⟨rfl, hg⟩ | ⟨body, s, rfl, hbody, hs⟩
  · exact .openLine rfl (.of_opens hopens hg (by simp))
  · rw [List.append_assoc] at hopens
    exact .line (.of_opens hopens hbody (by simp)) hs

theorem Filler.of_endsBlock (h : Filler.EndsBlock last s) : Filler last ('/' :: '*' :: s) := by
  rcases h with ⟨hlast, hs⟩ | ⟨body, rest, rfl, hbody, hrest⟩
  · exact .openBlock hlast hs
  · exact .block hbody hrest

theorem exists_cons_of_head? (h : (g ++ r).head? = some c) (hg : g = [] → r = []) :
    ∃ s, g = c :: s := by
  cases g with
  | nil =>
      rw [List.nil_append, hg rfl] at h
      cases h
  | cons d s =>
      cases h
      exact ⟨s, rfl⟩

theorem GapState.Ends.cons {st st' : GapState} (hnext : st.next c (g ++ r) = some st')
    (hg : st' ≠ .between → g = [] → r = []) (h : st'.Ends (r = []) g) :
    st.Ends (r = []) (c :: g) := by
  cases st with
  | between =>
      simp only [GapState.next] at hnext
      split at hnext
      · rename_i hblank
        cases hnext
        exact .blank hblank h
      · split at hnext
        · rename_i hopens
          cases hnext
          exact .of_endsLine h hopens
        · split at hnext
          · rename_i hopens
            cases hnext
            simp only [Bool.and_eq_true, beq_iff_eq] at hopens
            obtain ⟨rfl, hstar⟩ := hopens
            -- The second character of the mark belongs to the gap, where the scan does not stop.
            obtain ⟨s, rfl⟩ := exists_cons_of_head? hstar (hg (by simp))
            exact .of_endsBlock (h '*' s rfl)
          · cases hnext
  | lineComment =>
      cases hnext
      split at h
      · rename_i hfeed
        obtain rfl := eq_of_beq hfeed
        exact .inr ⟨[], g, rfl, by simp, h⟩
      · rename_i hfeed
        exact Filler.EndsLine.cons h fun hc => hfeed (beq_of_eq hc)
  | opening =>
      cases hnext
      rintro d s ⟨⟩
      exact h
  | blockComment =>
      cases hnext
      split at h
      · rename_i hcloses
        simp only [hcloses, if_true] at hg
        simp only [Bool.and_eq_true, beq_iff_eq] at hcloses
        obtain ⟨rfl, hslash⟩ := hcloses
        obtain ⟨s, rfl⟩ := exists_cons_of_head? hslash (hg (by simp))
        exact .inr ⟨[], s, rfl, by decide, h '/' s rfl⟩
      · rename_i hcloses
        refine Filler.EndsBlock.cons h fun hmark => hcloses ?_
        obtain ⟨rest, hrest⟩ := hmark
        obtain ⟨rfl, rfl⟩ := List.cons.inj hrest
        rfl
  | closing =>
      cases hnext
      rintro d s ⟨⟩
      exact h

theorem GapState.Ends.of_length {st : GapState} (h : gapLength st (g ++ r) = g.length) :
    st.Ends (r = []) g := by
  induction g generalizing st with
  | nil =>
      cases st with
      | between => exact .nil
      | opening | closing =>
          intro d s hcons
          cases hcons
      | _ =>
          cases r with
          | nil => exact .inl ⟨rfl, by simp⟩
          | cons c r => simp [gapLength] at h
  | cons c g ih =>
      rw [List.cons_append, gapLength_cons] at h
      cases hnext : st.next c (g ++ r) with
      | none => simp [hnext] at h
      | some st' =>
          simp only [hnext, List.length_cons, Nat.add_right_cancel_iff] at h
          refine .cons hnext (fun hst' hg => ?_) (ih h)
          cases r with
          | nil => rfl
          | cons d r =>
              have hpos := gapLength_pos hst' d r
              rw [hg, List.nil_append, List.length_nil] at h
              omega

theorem gapLength_line (hbody : '\n' ∉ body) (r : Text) :
    gapLength .lineComment (body ++ r) = body.length + gapLength .lineComment r := by
  induction body with
  | nil => simp
  | cons c body ih =>
      rw [List.mem_cons, not_or] at hbody
      have hc : (c == '\n') = false := beq_eq_false_iff_ne.2 (Ne.symm hbody.1)
      rw [List.cons_append, gapLength, hc, if_neg Bool.false_ne_true, ih hbody.2, List.length_cons]
      exact Nat.add_right_comm _ _ _

theorem gapLength_block (hbody : ¬ ['*', '/'] <:+: body ++ r.take 1) :
    gapLength .blockComment (body ++ r) = body.length + gapLength .blockComment r := by
  induction body with
  | nil => simp
  | cons c body ih =>
      rw [List.cons_append, List.infix_cons_iff, not_or] at hbody
      have hc : (c == '*' && (body ++ r).head? == some '/') = false := by
        rw [Bool.eq_false_iff]
        intro hmark
        simp only [Bool.and_eq_true, beq_iff_eq] at hmark
        obtain ⟨rfl, hslash⟩ := hmark
        refine hbody.1 (List.cons_prefix_cons.2 ⟨rfl, ?_⟩)
        cases body with
        | nil =>
            cases r with
            | nil => cases hslash
            | cons d r => cases hslash; simp
        | cons d body => cases hslash; simp
      rw [List.cons_append, gapLength, hc, if_neg Bool.false_ne_true, ih hbody.2, List.length_cons]
      exact Nat.add_right_comm _ _ _

theorem gapLength_opensLine (hblank : isBlank c = false) (hopens : opensLineComment c r = true) :
    gapLength .between (c :: r) = gapLength .lineComment r + 1 := by
  simp only [gapLength, hblank, hopens, Bool.false_eq_true, if_false, if_true]

theorem gapLength_opensBlock (r : Text) :
    gapLength .between ('/' :: '*' :: r) = gapLength .blockComment r + 2 := by
  simp [gapLength, opensLineComment, show isBlank '/' = false by decide]

theorem LineComment.gapLength_append (hc : LineComment g) (hr : ∀ d ∈ r.head?, d = '\n') :
    gapLength .between (g ++ r) = g.length + gapLength .lineComment r := by
  cases hc with
  | sharp hbody =>
      rw [List.cons_append, gapLength_opensLine (by decide) rfl, gapLength_line hbody,
        List.length_cons]
      exact Nat.add_right_comm _ _ _
  | @dashes body hbody hhead =>
      have hopens : opensLineComment '-' ('-' :: body ++ r) = true := by
        cases body with
        | nil =>
            cases r with
            | nil => rfl
            | cons d r =>
                obtain rfl := hr d (by simp)
                rfl
        | cons d body => exact hhead d (by simp)
      have hline : '\n' ∉ '-' :: body := by simp [hbody]
      rw [List.cons_append, gapLength_opensLine (by decide) hopens, gapLength_line hline,
        List.length_cons, List.length_cons]
      exact Nat.add_right_comm _ _ _

theorem Filler.gapLength_append (h : Filler last g) (hr : last → r = []) :
    gapLength .between (g ++ r) = g.length + gapLength .between r := by
  induction h with
  | nil => simp
  | blank hc _ ih =>
      rw [List.cons_append, gapLength, if_pos hc, ih, List.length_cons]
      exact Nat.add_right_comm _ _ _
  | @line c s hc _ ih =>
      have hfeed : gapLength .lineComment ('\n' :: s ++ r) = gapLength .between (s ++ r) + 1 := rfl
      rw [List.append_assoc, hc.gapLength_append (by simp), hfeed, ih, List.length_append,
        List.length_cons]
      omega
  | @block body s hbody _ ih =>
      have hcloses : gapLength .blockComment ('*' :: '/' :: (s ++ r)) =
          gapLength .between (s ++ r) + 2 := rfl
      simp only [List.cons_append, List.append_assoc, gapLength_opensBlock]
      rw [gapLength_block hbody, hcloses, ih]
      simp only [List.length_cons, List.length_append]
      omega
  | openLine hlast hc =>
      obtain rfl := hr hlast
      exact hc.gapLength_append (by simp)
  | @openBlock body hlast hbody =>
      obtain rfl := hr hlast
      have hblock : gapLength .blockComment (body ++ []) = body.length :=
        gapLength_block (by rwa [List.take_nil, List.append_nil])
      rw [List.cons_append, List.cons_append, gapLength_opensBlock, hblock]
      rfl

theorem closedGap_iff : ClosedGap g ↔ Filler False g := by
  constructor
  · intro h
    have hends : GapState.between.Ends (['x'] = []) g := .of_length (h ['x'])
    exact hends.mono fun hnil => absurd hnil (by simp)
  · intro h r
    exact h.gapLength_append False.elim

theorem gapLength_eq_length_iff : gapLength .between g = g.length ↔ Filler True g := by
  constructor
  · intro h
    have hends : GapState.between.Ends (([] : Text) = []) g := .of_length (by rwa [List.append_nil])
    exact hends.mono fun _ => trivial
  · intro h
    have hlength : gapLength .between (g ++ []) = g.length := h.gapLength_append fun _ => rfl
    rwa [List.append_nil] at hlength

end

end SoftDelete
