import SoftDelete.Proofs.Conservation.Statement
import SoftDelete.Proofs.Identity

namespace SoftDelete

section Growth

variable {column : Text}

theorem length_given_le (marks : List Mark) :
    (marks.flatMap Mark.given).length ≤ (marks.flatMap (Mark.written column)).length := by
  induction marks with
  | nil => exact Nat.le_refl 0
  | cons m marks ih =>
      have hm : m.given.length ≤ (m.written column).length := by
        cases m <;> simp [Mark.given, Mark.written]
      simpa using Nat.add_le_add hm ih

theorem tokensOf_filterCondition_ne_nil {target : Text} (hcolumn : IsFlagWord column)
    (htarget : IsTarget target) : tokensOf (filterCondition column target) ≠ [] := by
  obtain ⟨ts, -, hsource, hbare⟩ := exists_filterTokens hcolumn htarget
  rw [← hbare]
  rintro hnone
  rw [List.map_eq_nil_iff.1 hnone] at hsource
  cases hsource

theorem Made.length_lt {given written : List Token} {marks : List Mark}
    (h : Made column given written marks) (hcolumn : IsFlagWord column)
    (hne : targetsOf marks ≠ []) : given.length < written.length := by
  obtain ⟨target, htarget⟩ := List.exists_mem_of_ne_nil _ hne
  have hfilter := List.length_pos_iff.2
    (tokensOf_filterCondition_ne_nil hcolumn (h.named target htarget))
  obtain ⟨front, back, rfl⟩ := List.append_of_mem (mem_targetsOf htarget)
  have hgiven := congrArg List.length h.givens
  have hwritten := congrArg List.length h.writtens
  have hfront := @length_given_le column front
  have hback := @length_given_le column back
  simp only [List.flatMap_append, List.flatMap_cons, List.length_append, List.length_map,
    Mark.given, Mark.written, Mark.added, List.length_nil] at hgiven hwritten
  omega

end Growth

structure Filtering.Coherent (f : Filtering) : Prop where
  changed : f.result ≠ f.given ↔ f.outcome = .filtered
  constrains : f.outcome = .filtered → f.constrained ≠ []
  silent : f.outcome = .unchanged ∨ f.outcome = .explicitCondition ∨ f.outcome = .notSelect →
    f.problems = []
  told : f.outcome = .failedOpen → f.problems ≠ []

def Filtering.failed (sql : Text) (notes : Notes) (e : Failure) : Filtering :=
  ⟨sql, sql, .failedOpen, [], notes.problems ++ [⟨e, 0⟩]⟩

namespace Policy

variable {p : Policy} {sql : Text}

inductive Fails (parse : Text → Except String Unit) (p : Policy) (sql : Text) :
    Notes → Failure → Prop where
  | level {before : Notes} {v : Visit} {e : Failure}
      (hvisit : Visits p.catalog p.options (p.whole sql) before v)
      (herror : (v.run p.catalog p.options).result = .error e) :
      Fails parse p sql (before ++ (v.run p.catalog p.options).notes) e
  | rejected {out : Text} {reason : String} (hwhole : (p.filterWhole sql).result = .ok out)
      (hne : out ≠ sql) (hverify : p.options.verifyOutput = true) (hgiven : parse sql = .ok ())
      (hfiltered : parse out = .error reason) :
      Fails parse p sql (p.filterWhole sql).notes (.malformed reason)

theorem Fails.attempt_eq {parse : Text → Except String Unit} {notes : Notes} {e : Failure}
    (h : p.Fails parse sql notes e) : p.attempt parse sql = ⟨.error e, notes⟩ := by
  cases h with
  | level hvisit herror =>
      have hwhole := hvisit.run_eq_error herror
      change p.filterWhole sql = _ at hwhole
      change p.filterWhole sql >>= _ = _
      rw [hwhole, Attempt.bind_of_error rfl]
  | rejected hwhole hne hverify hgiven hfiltered =>
      change p.filterWhole sql >>= _ = _
      rw [Attempt.bind_of_ok hwhole, if_pos ⟨hverify, hne⟩]
      simp [verified, hgiven, hfiltered, Attempt.ofExcept]

theorem Ends.coherent {f : Filtering} (h : p.Ends sql f) : f.given = sql ∧ f.Coherent := by
  cases h with
  | notSelect | explicitCondition =>
      exact ⟨rfl, by simp [Filtering.untouched], nofun, fun _ => rfl, nofun⟩
  | failed hne => exact ⟨rfl, by simp, nofun, by simp, fun _ => hne⟩
  | filtered _ _ hwhole hne =>
      refine ⟨rfl, by simp [hne], fun _ hnone => hne ?_, by simp, nofun⟩
      exact filterLevel_verbatim hwhole hnone
  | kept _ _ hwhole =>
      by_cases hproblems : (p.filterWhole sql).notes.problems = []
      · exact ⟨rfl, by simp [hproblems], by simp [hproblems], fun _ => hproblems, by simp [hproblems]⟩
      · exact ⟨rfl, by simp [hproblems], by simp [hproblems], by simp [hproblems], fun _ => hproblems⟩

theorem Ends.filtered_of_constrained {f : Filtering} (h : p.Ends sql f)
    (hcolumn : IsFlagWord p.options.column) (hne : f.constrained ≠ []) : f.outcome = .filtered := by
  cases h with
  | notSelect | explicitCondition | failed => exact absurd rfl hne
  | filtered => rfl
  | kept _ _ hwhole =>
      obtain ⟨l, -, -, hlex, -⟩ := filterLevel_cases hwhole
      obtain ⟨written, marks, hreread⟩ := exists_reread hcolumn hwhole hlex
      -- The statement is its own result, so it would have more tokens than it has.
      obtain rfl : l.tokens = written :=
        congrArg Lexed.tokens (Except.ok.inj (hlex.symm.trans hreread.read))
      have hmarks : targetsOf marks ≠ [] := fun hnone =>
        hne (List.nil_perm.1 (hnone ▸ hreread.targets))
      exact absurd (hreread.made.length_lt hcolumn hmarks) (Nat.lt_irrefl _)

theorem filterWith_coherent (parse : Text → Except String Unit) (p : Policy) (sql : Text) :
    let f := p.filterWith parse sql
    f.given = sql ∧ f.Coherent ∧
      (IsFlagWord p.options.column → f.constrained ≠ [] → f.outcome = .filtered) ∧
      ∀ notes e, opensWithSelect sql = true → comparesFlag sql p.options.column = false →
        p.Fails parse sql notes e → f = .failed sql notes e := by
  intro f
  have hends : p.Ends sql f := p.filterWith_ends parse sql
  refine ⟨hends.coherent.1, hends.coherent.2, hends.filtered_of_constrained, ?_⟩
  intro notes e hopens hcompares hfails
  simp [f, filterWith, hopens, hcompares, hfails.attempt_eq, outcomeOf, Filtering.failed]

theorem filterWith_coherent_rolledBack :
    let p : Policy := ⟨⟨["hist_a".toList, "hist_b".toList]⟩, ⟨"deleted".toList, 8, 8, true⟩⟩
    let sql := "SELECT * FROM (SELECT x FROM hist_b) q JOIN hist_a USING (x)".toList
    let f := p.filterWith (fun _ => .ok ()) sql
    let g := p.filterWith (fun _ => .ok ()) "SELECT x FROM hist_b".toList
    ∃ notes e, p.Fails (fun _ => .ok ()) sql notes e ∧ notes.constrained = ["hist_b".toList] ∧
      f = .failed sql notes e ∧ f.Coherent ∧
      IsFlagWord p.options.column ∧ g.constrained = ["hist_b".toList] ∧ g.outcome = .filtered := by
  intro p sql f g
  have hcolumn : IsFlagWord p.options.column :=
    ⟨⟨[], .word, "deleted".toList⟩, [], by decide +kernel, rfl, closedGap_nil⟩
  have hfails : p.Fails (fun _ => .ok ()) sql _ (.joinWithoutOn "JOIN ... USING") :=
    .level (.here (p.whole sql)) (by decide +kernel)
  obtain ⟨-, hcoherent, -, hfailed⟩ := p.filterWith_coherent (fun _ => .ok ()) sql
  obtain ⟨-, -, hfiltered, -⟩ :=
    p.filterWith_coherent (fun _ => .ok ()) "SELECT x FROM hist_b".toList
  have hconstrained : g.constrained = ["hist_b".toList] := by decide +kernel
  exact ⟨_, _, hfails, by decide +kernel, hfailed _ _ (by decide +kernel) (by decide +kernel) hfails,
    hcoherent, hcolumn, hconstrained, hfiltered hcolumn (by rw [hconstrained]; nofun)⟩

theorem filterLevel_of_sorted {catalog : Catalog} {options : Options} {room depth offset : Nat}
    {out : Text} (h : (do
      let l ← Lexed.ofText sql
      let items ← (itemsOf (nestedFilter catalog options room depth) offset
        (segments l.tokens).1).result
      let edit ← Level.filterEdit catalog options ⟨items, l.tail⟩
      .ok ((segments l.tokens).2, Level.namesTable catalog ⟨items, l.tail⟩,
        decide (edit.edits.Pairwise fun a b => Edit.le a b = true),
        Level.outputFrom ⟨items, l.tail⟩ 0 edit.edits)) = .ok ([], true, true, out)) :
    (filterLevel catalog options room depth offset sql).result = .ok out := by
  obtain ⟨l, hl, h⟩ := exists_of_bind_ok h
  obtain ⟨items, hitems, h⟩ := exists_of_bind_ok h
  obtain ⟨edit, hedit, h⟩ := exists_of_bind_ok h
  obtain ⟨hunclosed, hnames, hsorted, hout⟩ := by simpa using h
  rw [filterLevel_of_lex (lex_of_ofText hl), Attempt.bind_of_ok hitems, hunclosed, ← hout,
    ← Level.outputWith_of_sorted hsorted]
  simp only [closeLevel, hnames, if_true, hedit]
  rfl

theorem filterWith_of_kept {parse : Text → Except String Unit} (hopens : opensWithSelect sql = true)
    (hcompares : comparesFlag sql p.options.column = false)
    (hwhole : (p.filterWhole sql).result = .ok sql) :
    p.filterWith parse sql = ⟨sql, sql, if (p.filterWhole sql).notes.problems.isEmpty then .unchanged
      else .failedOpen, (p.filterWhole sql).notes.constrained,
      (p.filterWhole sql).notes.problems⟩ := by
  have hattempt : p.attempt parse sql = ⟨.ok sql, (p.filterWhole sql).notes⟩ := by
    change p.filterWhole sql >>= _ = _
    rw [Attempt.bind_of_ok hwhole]
    simp
  simp [filterWith, hopens, hcompares, hattempt, outcomeOf]

/-- The word of this flag column opens a comment that ends behind the next backtick. -/
def veiling : Policy :=
  ⟨⟨["h".toList, "g".toList]⟩, ⟨"d/*`".toList, 8, 8, true⟩⟩

/-- Written with its filters, this statement is itself again: in their place it has comments that
read like them, up to the flag column. -/
def veiled : Text :=
  "SELECT * FROM h \"\n/*/(SELECT `\" LEFT JOIN g `*/IS NULL) JOIN # ` ON ".toList ++
  "(`*/IS NULL) JOIN # `.d/*` = 0 OR `*/IS NULL) JOIN # `.d/*` IS NULL) AND (".toList ++
  "(`*/IS NULL) JOIN # `.d/*` = 0 OR `*/IS NULL)) JOIN (SELECT `\".d/*` IS NULL) ON ".toList ++
  "(\"\n/*/(SELECT `\".d/*` = 0 OR \"\n/*/(SELECT `\".d/*` IS NULL)".toList

theorem filterWith_not_coherent :
    let f := veiling.filterWith (fun _ => .ok ()) veiled
    (∃ w tail, lex veiling.options.column = .ok ⟨[w], tail⟩ ∧ w.kind = .word) ∧
      f.constrained ≠ [] ∧ f.result = f.given ∧ f.outcome = .unchanged := by
  have hwhole : (veiling.filterWhole veiled).result = .ok veiled :=
    filterLevel_of_sorted (by decide +kernel)
  obtain ⟨hopens, hcompares, hconstrained, hproblems⟩ :
      opensWithSelect veiled = true ∧ comparesFlag veiled veiling.options.column = false ∧
        (veiling.filterWhole veiled).notes.constrained ≠ [] ∧
        (veiling.filterWhole veiled).notes.problems = [] := by
    decide +kernel
  have hkept : veiling.filterWith (fun _ => .ok ()) veiled = _ :=
    filterWith_of_kept hopens hcompares hwhole
  rw [hproblems] at hkept
  intro f
  refine ⟨⟨⟨[], .word, "d".toList⟩, "/*`".toList, by decide +kernel, rfl⟩, ?_⟩
  rw [show f = _ from hkept]
  exact ⟨hconstrained, rfl, rfl⟩

end Policy

end SoftDelete
