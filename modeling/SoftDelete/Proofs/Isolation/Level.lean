import SoftDelete.Proofs.Isolation.Swap

namespace SoftDelete

/-- Two texts that differ inside one sub-select are filtered alike around it: either both fail, and in
the same way, or each gets the filtered body of its own sub-select in the same place of the same
text, and around it the same tables are filtered. -/
theorem filterLevel_around_subselect (catalog : Catalog) (options : Options)
    (room depth offset start : Nat) {front inner inner' back body body' : Text}
    (h : (front, inner) ∈ isolated (enclose front inner back))
    (h' : (front, inner') ∈ isolated (enclose front inner' back))
    (hbody : (nestedFilter catalog options room depth start inner).result = .ok body)
    (hbody' : (nestedFilter catalog options room depth start inner').result = .ok body') :
    let one := filterLevel catalog options room depth offset (enclose front inner back)
    let other := filterLevel catalog options room depth offset (enclose front inner' back)
    (∃ e e', one.result = .error e ∧ other.result = .error e' ∧ e.kind = e'.kind) ∨
      ∃ left right earlier later,
        one.result = .ok (enclose left body right) ∧
        other.result = .ok (enclose left body' right) ∧
        one.notes.constrained = earlier ++
          ((nestedFilter catalog options room depth start inner).notes.constrained ++ later) ∧
        other.notes.constrained = earlier ++
          ((nestedFilter catalog options room depth start inner').notes.constrained ++ later) := by
  obtain ⟨before, opening, ts, closing, after, unclosed, tail, hcut⟩ := exists_cut h
  obtain ⟨before', opening', ts', closing', after', unclosed', tail', hcut'⟩ := exists_cut h'
  obtain ⟨rfl, rfl, rfl, rfl, rfl⟩ := hcut.unique hcut'
  intro one other
  have hnested : Agree
      (fun p q => p = (body, (nestedFilter catalog options room depth start inner).notes.constrained) ∧
        q = (body', (nestedFilter catalog options room depth start inner').notes.constrained))
      (nestedFilter catalog options room depth start inner).yield
      (nestedFilter catalog options room depth start inner').yield := by
    rw [Attempt.yield_eq_ok.2 ⟨hbody, rfl⟩, Attempt.yield_eq_ok.2 ⟨hbody', rfl⟩]
    exact .ok ⟨rfl, rfl⟩
  rw [hcut.inner_eq, hcut'.inner_eq] at hnested
  have hlevel : Agree _ one.yield other.yield :=
    filterLevel_swap_subselect catalog options hcut.into hcut'.into room depth offset start hnested
  rw [← hcut.inner_eq, ← hcut'.inner_eq] at hlevel
  generalize hone : one.yield = y at hlevel
  generalize hother : other.yield = y' at hlevel
  cases hlevel with
  | error hkind =>
      exact .inl ⟨_, _, Attempt.yield_eq_error.1 hone, Attempt.yield_eq_error.1 hother, hkind⟩
  | ok haround =>
      obtain ⟨left, right, earlier, later, _, _, ⟨_, _, ⟨rfl, rfl⟩, rfl, rfl⟩, rfl, rfl⟩ := haround
      obtain ⟨hout, hnames⟩ := Attempt.yield_eq_ok.1 hone
      obtain ⟨hout', hnames'⟩ := Attempt.yield_eq_ok.1 hother
      exact .inr ⟨left, right, earlier, later, by simpa [enclose] using hout,
        by simpa [enclose] using hout', hnames, hnames'⟩

theorem filterLevel_around_subselect_on :
    let catalog : Catalog := ⟨["hist_a".toList, "hist_b".toList]⟩
    let options : Options := ⟨"deleted".toList, 8, 8, true⟩
    let front := "SELECT * FROM hist_a a JOIN plain b ON b.x IN ".toList
    let back := " WHERE a.y = 1 OR b.y = 1".toList
    let inner := "SELECT id FROM hist_b".toList
    let body := "SELECT id FROM hist_b WHERE (hist_b.deleted = 0 OR hist_b.deleted IS NULL)".toList
    let inner' := "SELECT 1".toList
    let one := filterLevel catalog options 7 1 0 (enclose front inner back)
    let other := filterLevel catalog options 7 1 0 (enclose front inner' back)
    (front, inner) ∈ isolated (enclose front inner back) ∧
      (front, inner') ∈ isolated (enclose front inner' back) ∧
      (nestedFilter catalog options 7 1 0 inner).result = .ok body ∧
      (nestedFilter catalog options 7 1 0 inner').result = .ok inner' ∧
      ((∃ e e', one.result = .error e ∧ other.result = .error e' ∧ e.kind = e'.kind) ∨
        ∃ left right earlier later,
          one.result = .ok (enclose left body right) ∧
          other.result = .ok (enclose left inner' right) ∧
          one.notes.constrained = earlier ++
            ((nestedFilter catalog options 7 1 0 inner).notes.constrained ++ later) ∧
          other.notes.constrained = earlier ++
            ((nestedFilter catalog options 7 1 0 inner').notes.constrained ++ later)) := by
  intro catalog options front back inner body inner' one other
  have h : (front, inner) ∈ isolated (enclose front inner back) := by decide +kernel
  have h' : (front, inner') ∈ isolated (enclose front inner' back) := by decide +kernel
  have hbody : (nestedFilter catalog options 7 1 0 inner).result = .ok body := by decide +kernel
  have hbody' : (nestedFilter catalog options 7 1 0 inner').result = .ok inner' := by decide +kernel
  exact ⟨h, h', hbody, hbody',
    filterLevel_around_subselect catalog options 7 1 0 0 h h' hbody hbody'⟩

end SoftDelete
