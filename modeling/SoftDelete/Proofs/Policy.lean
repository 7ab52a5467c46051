import SoftDelete.Policy
import SoftDelete.Proofs.Select.Visit

namespace SoftDelete

namespace Policy

def whole (p : Policy) (sql : Text) : Visit :=
  ⟨p.options.maxDepth, 0, 0, sql⟩

def filterWhole (p : Policy) (sql : Text) : Attempt Text :=
  filterLevel p.catalog p.options p.options.maxDepth 0 0 sql

inductive Ends (p : Policy) (sql : Text) : Filtering → Prop where
  | notSelect (hopens : opensWithSelect sql = false) : Ends p sql (.untouched sql .notSelect)
  | explicitCondition (hopens : opensWithSelect sql = true)
      (hcompares : comparesFlag sql p.options.column = true) :
      Ends p sql (.untouched sql .explicitCondition)
  | filtered {out : Text} (hopens : opensWithSelect sql = true)
      (hcompares : comparesFlag sql p.options.column = false)
      (hwhole : (p.filterWhole sql).result = .ok out) (hne : out ≠ sql) :
      Ends p sql ⟨sql, out, .filtered, (p.filterWhole sql).notes.constrained,
        (p.filterWhole sql).notes.problems⟩
  | kept (hopens : opensWithSelect sql = true)
      (hcompares : comparesFlag sql p.options.column = false)
      (hwhole : (p.filterWhole sql).result = .ok sql) :
      Ends p sql ⟨sql, sql, if (p.filterWhole sql).notes.problems.isEmpty then .unchanged
        else .failedOpen, (p.filterWhole sql).notes.constrained, (p.filterWhole sql).notes.problems⟩
  | failed {problems : List Problem} (hne : problems ≠ []) :
      Ends p sql ⟨sql, sql, .failedOpen, [], problems⟩

theorem attempt_eq_ok {parse : Text → Except String Unit} {p : Policy} {sql out : Text}
    (h : (p.attempt parse sql).result = .ok out) :
    (p.filterWhole sql).result = .ok out ∧
      (p.attempt parse sql).notes = (p.filterWhole sql).notes := by
  obtain ⟨filtered, hwhole, h, hnotes⟩ := Attempt.exists_of_bind h
  have hend : filtered = out ∧ ∀ notes : Notes,
      notes ++ (if p.options.verifyOutput ∧ filtered ≠ sql then
        Attempt.ofExcept (verified parse sql filtered) else pure filtered).notes = notes := by
    split at h
    · rename_i hverify
      rw [if_pos hverify]
      refine ⟨?_, fun notes => Notes.append_empty notes⟩
      change verified parse sql filtered = .ok out at h
      unfold verified at h
      split at h
      · cases h
      · exact Except.ok.inj h
    · rename_i hverify
      rw [if_neg hverify]
      exact ⟨Except.ok.inj h, fun notes => Notes.append_empty notes⟩
  obtain ⟨rfl, hend⟩ := hend
  exact ⟨hwhole, hnotes.trans (hend _)⟩

theorem filterWith_ends (parse : Text → Except String Unit) (p : Policy) (sql : Text) :
    p.Ends sql (p.filterWith parse sql) := by
  unfold filterWith
  split
  · rename_i hopens
    exact .notSelect (by simpa using hopens)
  rename_i hopens
  have hopens : opensWithSelect sql = true := by simpa using hopens
  split
  · rename_i hcompares
    exact .explicitCondition hopens hcompares
  rename_i hcompares
  have hcompares : comparesFlag sql p.options.column = false := by simpa using hcompares
  unfold outcomeOf
  split
  · rename_i out hresult
    obtain ⟨hwhole, hnotes⟩ := attempt_eq_ok hresult
    rw [hnotes]
    by_cases hne : out = sql
    · subst hne
      simpa using Ends.kept hopens hcompares hwhole
    · simpa [hne] using Ends.filtered hopens hcompares hwhole hne
  · exact .failed (by simp)

theorem Ends.kept_or_filtered {p : Policy} {sql : Text} {f : Filtering} (h : p.Ends sql f) :
    (f.outcome ≠ .filtered ∧ f.result = sql) ∨
      (f.outcome = .filtered ∧ opensWithSelect sql = true ∧
        (p.filterWhole sql).result = .ok f.result ∧ f.result ≠ sql ∧
        f.constrained = (p.filterWhole sql).notes.constrained) := by
  cases h with
  | notSelect | explicitCondition | failed => exact .inl ⟨nofun, rfl⟩
  | kept =>
      refine .inl ⟨?_, rfl⟩
      dsimp only
      split <;> nofun
  | filtered hopens _ hwhole hne => exact .inr ⟨rfl, hopens, hwhole, hne, rfl⟩

end Policy

end SoftDelete
