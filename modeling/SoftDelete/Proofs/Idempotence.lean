import SoftDelete.Proofs.Conservation.Statement

namespace SoftDelete

def IsPlainWord (column : Text) : Prop :=
  lex column = .ok ⟨[⟨[], .word, column⟩], []⟩

theorem IsPlainWord.isFlagWord {column : Text} (h : IsPlainWord column) : IsFlagWord column :=
  ⟨_, _, h, rfl, closedGap_nil⟩

section Compared

variable {column : Text} {ts us : List Token}

theorem opensComparison_map_bare (ts : List Token) :
    opensComparison (ts.map Token.bare) = opensComparison ts := by
  cases ts with
  | nil => rfl
  | cons t ts => cases ts <;> rfl

theorem comparedIn_map_bare (column : Text) (ts : List Token) :
    comparedIn column (ts.map Token.bare) = comparedIn column ts := by
  induction ts with
  | nil => rfl
  | cons t ts ih =>
      rw [List.map_cons, comparedIn, comparedIn, opensComparison_map_bare, ih]
      rfl

theorem opensComparison_append (h : opensComparison ts = true) (us : List Token) :
    opensComparison (ts ++ us) = true := by
  cases ts with
  | nil => cases h
  | cons t ts =>
      rw [List.cons_append]
      rw [opensComparison] at h ⊢
      split at h
      · rename_i hkind
        rwa [if_pos hkind]
      · rename_i hkind
        rw [if_neg hkind]
        cases ts with
        | nil => simp_all
        | cons u ts => exact h

theorem comparedIn_append_left (h : comparedIn column ts = true) (us : List Token) :
    comparedIn column (ts ++ us) = true := by
  induction ts with
  | nil => cases h
  | cons t ts ih =>
      rw [comparedIn, Bool.or_eq_true, Bool.and_eq_true] at h
      rw [List.cons_append, comparedIn, Bool.or_eq_true, Bool.and_eq_true]
      rcases h with ⟨hnames, hopens⟩ | h
      · exact .inl ⟨hnames, opensComparison_append hopens us⟩
      · exact .inr (ih h)

theorem comparedIn_append_right (ts : List Token) (h : comparedIn column us = true) :
    comparedIn column (ts ++ us) = true := by
  induction ts with
  | nil => exact h
  | cons t ts ih => simp [comparedIn, ih]

theorem comparedIn_filterCondition {target : Text} (hcolumn : IsPlainWord column)
    (htarget : IsTarget target) :
    comparedIn column (tokensOf (filterCondition column target)) = true := by
  obtain ⟨names, hnames, rfl⟩ := htarget
  have hw : (⟨[], .word, column⟩ : Token).StandsBefore [] := by
    simpa [Readable] using (readable_of_lex hcolumn).1
  have htokens := tokensOf_filterCondition hnames hw closedGap_nil
  rw [show Token.source ⟨[], .word, column⟩ ++ [] = column by simp [Token.source]] at htokens
  rw [htokens, comparedIn_map_bare, filterTokens, fieldTokens, List.append_assoc,
    ← List.cons_append]
  apply comparedIn_append_right
  have hflag : Token.namesFlag column ⟨[], .word, column⟩ = true := Text.sameWord_refl column
  have hequal : comparingMarks.contains ['='] = true := by decide
  have hcompared : ∀ ts, comparedIn column
      (⟨[], .word, column⟩ :: ⟨[' '], .operator, ['=']⟩ :: ts) = true := fun ts => by
    rw [comparedIn, Bool.or_eq_true, Bool.and_eq_true]
    exact .inl ⟨hflag, hequal⟩
  exact comparedIn_append_right [Token.dot] (hcompared _)

theorem Made.comparedIn {given written : List Token} {marks : List Mark}
    (h : Made column given written marks) (hcolumn : IsPlainWord column)
    (hne : targetsOf marks ≠ []) : comparedIn column written = true := by
  obtain ⟨target, htarget⟩ := List.exists_mem_of_ne_nil _ hne
  obtain ⟨front, back, hmarks⟩ := List.append_of_mem (mem_targetsOf htarget)
  have hwritten : written.map Token.bare = front.flatMap (Mark.written column) ++
      (tokensOf (filterCondition column target) ++ back.flatMap (Mark.written column)) := by
    rw [h.writtens, hmarks]
    simp [Mark.written, Mark.added]
  rw [← comparedIn_map_bare, hwritten]
  exact comparedIn_append_right _
    (comparedIn_append_left (comparedIn_filterCondition hcolumn (h.named target htarget)) _)

end Compared

theorem opensWithSelect_eq {s : Text} {l : Lexed} (h : lex s = .ok l) :
    opensWithSelect s = (opener l.tokens).any (·.spells "SELECT") := by
  rw [opensWithSelect, Lexed.ofText, h, opener, Option.any_map]
  rfl

namespace Policy

variable {p : Policy} {sql out : Text}

theorem filterWith_filtered (parse : Text → Except String Unit)
    (hcolumn : IsPlainWord p.options.column) (hopens : opensWithSelect sql = true)
    (hwhole : (p.filterWhole sql).result = .ok out) (hne : out ≠ sql) :
    p.filterWith parse out = .untouched out .explicitCondition := by
  obtain ⟨l, items, notes, hlex, -⟩ := filterLevel_cases hwhole
  obtain ⟨written, marks, hreread⟩ := exists_reread hcolumn.isFlagWord hwhole hlex
  have htargets : targetsOf marks ≠ [] := by
    intro hnone
    have hwritten := hreread.made.same hnone
    have hout : sourceOf written ++ l.tail = out := source_of_lex hreread.read
    have hsql : sourceOf l.tokens ++ l.tail = sql := source_of_lex hlex
    exact hne (by rw [← hout, ← hsql, hwritten])
  have hselect : opensWithSelect out = true := by
    rw [opensWithSelect_eq hreread.read, hreread.opens, ← opensWithSelect_eq hlex, hopens]
  have hcompares : comparesFlag out p.options.column = true := by
    rw [comparesFlag, Lexed.ofText, hreread.read]
    exact hreread.made.comparedIn hcolumn htargets
  simp [filterWith, hselect, hcompares]

theorem filterWith_idempotent (parse : Text → Except String Unit) (p : Policy) (sql : Text)
    (hcolumn : IsPlainWord p.options.column) :
    let f := p.filterWith parse sql
    let g := p.filterWith parse f.result
    g.result = f.result ∧ (f.outcome = .filtered → g.outcome = .explicitCondition) := by
  intro f g
  rcases (p.filterWith_ends parse sql).kept_or_filtered with
    ⟨hkept, hresult⟩ | ⟨-, hopens, hwhole, hne, -⟩
  · have hsame : g = f := congrArg (p.filterWith parse) hresult
    rw [hsame]
    exact ⟨rfl, fun h => absurd h hkept⟩
  · have hsecond : g = .untouched f.result .explicitCondition :=
      filterWith_filtered parse hcolumn hopens hwhole hne
    rw [hsecond]
    exact ⟨rfl, fun _ => rfl⟩

theorem filterWith_idempotent_deleted :
    let p : Policy := ⟨⟨["hist_a".toList]⟩, ⟨"deleted".toList, 32, 64, false⟩⟩
    let sql := "SELECT * FROM hist_a a, (SELECT y FROM hist_a) b".toList
    let f := p.filterWith (fun _ => .ok ()) sql
    let g := p.filterWith (fun _ => .ok ()) f.result
    (IsPlainWord p.options.column ∧ f.outcome = .filtered) ∧
      g.result = f.result ∧ (f.outcome = .filtered → g.outcome = .explicitCondition) := by
  intro p sql f g
  have hcolumn : IsPlainWord p.options.column := by
    unfold IsPlainWord
    decide +kernel
  have houtcome : f.outcome = .filtered := by decide +kernel
  exact ⟨⟨hcolumn, houtcome⟩, p.filterWith_idempotent (fun _ => .ok ()) sql hcolumn⟩

/-- A flag column with a space in front of its word is not found in its own filters. -/
theorem filterWith_not_idempotent :
    let p : Policy := ⟨⟨["hist_a".toList]⟩, ⟨" deleted".toList, 32, 64, false⟩⟩
    let f := p.filterWith (fun _ => .ok ()) "SELECT * FROM hist_a JOIN plain".toList
    let g := p.filterWith (fun _ => .ok ()) f.result
    (∃ w tail, lex p.options.column = .ok ⟨[w], tail⟩ ∧ w.kind = .word) ∧
      f.outcome = .filtered ∧ g.result ≠ f.result ∧ g.outcome ≠ .explicitCondition := by
  intro p f g
  refine ⟨⟨⟨[' '], .word, "deleted".toList⟩, [], by decide +kernel, rfl⟩, ?_, ?_, ?_⟩
  · decide +kernel
  · decide +kernel
  · decide +kernel

end Policy

end SoftDelete
