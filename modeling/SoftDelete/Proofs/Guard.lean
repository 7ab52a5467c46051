import SoftDelete.Config.Basic
import SoftDelete.Proofs.Idempotence
import SoftDelete.Proofs.Sql.Ending

namespace SoftDelete

section Comparison

variable {column sql : Text} {ts : List Token} {l : Lexed}

inductive BeginsComparison : List Token → Prop where
  | mark {t : Token} {ts : List Token} (hkind : t.kind = .operator)
      (hmark : t.text ∈ comparingMarks) : BeginsComparison (t :: ts)
  | word {t : Token} {ts : List Token} {word : String} (hword : word ∈ ["IS", "IN", "LIKE"])
      (hspells : t.spells word = true) : BeginsComparison (t :: ts)
  | notWord {t u : Token} {ts : List Token} {word : String} (hnot : t.spells "NOT" = true)
      (hword : word ∈ ["IN", "LIKE"]) (hspells : u.spells word = true) :
      BeginsComparison (t :: u :: ts)

theorem BeginsComparison.opens (h : BeginsComparison ts) : opensComparison ts = true := by
  cases h with
  | mark hkind hmark => simpa [opensComparison, hkind] using hmark
  | word hword hspells =>
      have hkind := Token.kind_of_spells hspells
      simp only [List.mem_cons, List.not_mem_nil, or_false] at hword
      rcases hword with rfl | rfl | rfl <;> simp [opensComparison, hkind, hspells]
  | notWord hnot hword hspells =>
      have hkind := Token.kind_of_spells hnot
      simp only [List.mem_cons, List.not_mem_nil, or_false] at hword
      rcases hword with rfl | rfl <;> simp [opensComparison, hkind, hnot, hspells]

theorem BeginsComparison.of_opens (h : opensComparison ts = true) : BeginsComparison ts := by
  cases ts with
  | nil => cases h
  | cons t ts =>
      rw [opensComparison] at h
      split at h
      · exact .mark ‹_› (by simpa using h)
      · simp only [Bool.or_eq_true, Bool.and_eq_true, Option.any_eq_true,
          List.head?_eq_some_iff] at h
        rcases h with ((h | h) | h) | ⟨hnot, u, ⟨us, rfl⟩, hin | hlike⟩
        · exact .word (by simp) h
        · exact .word (by simp) h
        · exact .word (by simp) h
        · exact .notWord hnot (by simp) hin
        · exact .notWord hnot (by simp) hlike

theorem opensComparison_iff : opensComparison ts = true ↔ BeginsComparison ts :=
  ⟨BeginsComparison.of_opens, BeginsComparison.opens⟩

theorem comparedIn_iff : comparedIn column ts = true ↔
    ∃ front t rest, ts = front ++ t :: rest ∧ t.namesFlag column = true ∧
      BeginsComparison rest := by
  constructor
  · intro h
    induction ts with
    | nil => cases h
    | cons t ts ih =>
        rw [comparedIn, Bool.or_eq_true, Bool.and_eq_true] at h
        rcases h with ⟨hnames, hopens⟩ | h
        · exact ⟨[], t, ts, rfl, hnames, opensComparison_iff.1 hopens⟩
        · obtain ⟨front, u, rest, rfl, hnames, hbegins⟩ := ih h
          exact ⟨t :: front, u, rest, rfl, hnames, hbegins⟩
  · rintro ⟨front, t, rest, rfl, hnames, hbegins⟩
    apply comparedIn_append_right
    rw [comparedIn, hnames, opensComparison_iff.2 hbegins]
    rfl

theorem comparesFlag_of_lex (h : lex sql = .ok l) :
    comparesFlag sql column = comparedIn column l.tokens := by
  rw [comparesFlag, Lexed.ofText, h]
  rfl

end Comparison

section Name

variable {c : Char} {s : Text}

theorem ofMark?_of_isNamePart (h : isNamePart c = true) : Quote.ofMark? c = none := by
  cases hc : Quote.ofMark? c with
  | none => rfl
  | some q =>
      have hmark : isNamePart q.mark = false := by cases q <;> decide
      rw [Quote.eq_mark_of_ofMark? hc, hmark] at h
      cases h

theorem gapLength_of_isNamePart (h : isNamePart c = true) : gapLength .between (c :: s) = 0 := by
  have hother : ∀ d, isNamePart d = false → c ≠ d := by
    rintro d hd rfl
    rw [hd] at h
    cases h
  refine gapLength_eq_zero_iff.2 ⟨isBlank_of_isNamePart h, ?_, fun hc => ?_⟩
  · rw [Bool.eq_false_iff]
    intro hopens
    rcases opensLineComment_iff.1 hopens with hc | ⟨hc, -⟩
    · exact hother '#' (by decide) hc
    · exact hother '-' (by decide) hc
  · exact absurd hc (hother '/' (by decide))

def nameKind (s : Text) : Token.Kind :=
  if s.all Char.isDigit then .number else .word

theorem lex_name (hne : s ≠ []) (hs : s.all isNamePart = true) :
    lex s = .ok ⟨[⟨[], nameKind s, s⟩], []⟩ := by
  obtain ⟨c, x, rfl⟩ := List.exists_cons_of_ne_nil hne
  rw [List.all_cons, Bool.and_eq_true] at hs
  obtain ⟨hc, hx⟩ := hs
  have htake : x.takeWhile isNamePart = x :=
    List.takeWhile_eq_self_iff.2 fun d hd => List.all_eq_true.1 hx d hd
  have hword : wordLexeme c x = (nameKind (c :: x), x.length) := by
    simp only [wordLexeme, htake, List.take_length, List.drop_length, fractionLength, nameKind,
      Nat.add_zero]
    split <;> rfl
  have hread : lexeme? c (x ++ []) = some (nameKind (c :: x), x.length) := by
    rw [List.append_nil, lexeme?, ofMark?_of_isNamePart hc]
    simp only [hc, if_true, hword]
  have hstands : Token.StandsBefore ⟨[], nameKind (c :: x), c :: x⟩ [] :=
    ⟨closedGap_nil, .intro (gapLength_of_isNamePart hc) hread⟩
  have hreadable : Readable [⟨[], nameKind (c :: x), c :: x⟩] [] := ⟨hstands, trivial⟩
  have hlex := lex_of_readable hreadable rfl
  simpa [Token.source] using hlex

end Name

namespace Config

variable {c : Config}

theorem column_of_validate (h : c.validate = .ok ()) :
    c.flag.column.toList ≠ [] ∧ c.flag.column.toList.all isNamePart = true := by
  have hflag : c.flag.fault? = none := by
    unfold validate fault? at h
    cases hfault : c.flag.fault? with
    | none => rfl
    | some f => simp [hfault] at h
  unfold FlagConfig.fault? at hflag
  split at hflag
  · cases hflag
  · rename_i hcolumn
    simp only [Bool.or_eq_true, Bool.not_eq_true', not_or, Bool.not_eq_false] at hcolumn
    refine ⟨fun hnil => hcolumn.1 ?_, hcolumn.2⟩
    rw [String.isEmpty_iff, ← String.toList_inj, hnil]
    rfl

theorem isPlainWord_iff (h : c.validate = .ok ()) :
    IsPlainWord (Policy.ofConfig c).options.column ↔
      ¬ c.flag.column.toList.all Char.isDigit = true := by
  obtain ⟨hne, hparts⟩ := column_of_validate h
  rw [IsPlainWord, show (Policy.ofConfig c).options.column = c.flag.column.toList from rfl,
    lex_name hne hparts]
  simp [nameKind]

end Config

namespace Policy

variable {p : Policy} {sql : Text} {l : Lexed}

theorem Ends.compares {f : Filtering} (h : p.Ends sql f) (houtcome : f.outcome = .explicitCondition) :
    opensWithSelect sql = true ∧ comparesFlag sql p.options.column = true := by
  cases h with
  | explicitCondition hopens hcompares => exact ⟨hopens, hcompares⟩
  | kept =>
      dsimp only at houtcome
      split at houtcome <;> cases houtcome
  | notSelect | filtered | failed => cases houtcome

theorem filterWith_compared (parse : Text → Except String Unit) (hlex : lex sql = .ok l)
    {front rest : List Token} {t : Token} (htokens : l.tokens = front ++ t :: rest)
    (hnames : t.namesFlag p.options.column = true) (hrest : BeginsComparison rest) :
    p.filterWith parse sql =
      .untouched sql (if opensWithSelect sql then .explicitCondition else .notSelect) := by
  have hcompares : comparesFlag sql p.options.column = true := by
    rw [comparesFlag_of_lex hlex]
    exact comparedIn_iff.2 ⟨front, t, rest, htokens, hnames, hrest⟩
  cases hopens : opensWithSelect sql <;> simp [filterWith, hopens, hcompares]

theorem filterWith_explicitCondition_iff (parse : Text → Except String Unit)
    (hlex : lex sql = .ok l) :
    (p.filterWith parse sql).outcome = .explicitCondition ↔
      opensWithSelect sql = true ∧ ∃ front t rest, l.tokens = front ++ t :: rest ∧
        t.namesFlag p.options.column = true ∧ BeginsComparison rest := by
  constructor
  · intro h
    obtain ⟨hopens, hcompares⟩ := (p.filterWith_ends parse sql).compares h
    rw [comparesFlag_of_lex hlex] at hcompares
    exact ⟨hopens, comparedIn_iff.1 hcompares⟩
  · rintro ⟨hopens, front, t, rest, htokens, hnames, hrest⟩
    rw [filterWith_compared parse hlex htokens hnames hrest, hopens]
    rfl

example :
    (filterWith (fun _ => .ok ()) ⟨⟨["hist_a".toList]⟩, ⟨"deleted".toList, 32, 64, false⟩⟩
      "SELECT * FROM plain p, hist_a a WHERE 1 = a.deleted".toList).outcome = .filtered := by
  decide +kernel

theorem filterWith_ofConfig_filtered (parse : Text → Except String Unit) {c : Config}
    (hvalid : c.validate = .ok ()) (hdigits : ¬ c.flag.column.toList.all Char.isDigit = true)
    (houtcome : ((ofConfig c).filterWith parse sql).outcome = .filtered) :
    comparesFlag ((ofConfig c).filterWith parse sql).result c.flag.column.toList = true ∧
      (ofConfig c).filterWith parse ((ofConfig c).filterWith parse sql).result =
        .untouched ((ofConfig c).filterWith parse sql).result .explicitCondition := by
  have hcolumn := (Config.isPlainWord_iff hvalid).2 hdigits
  rcases ((ofConfig c).filterWith_ends parse sql).kept_or_filtered with
    ⟨hkept, -⟩ | ⟨-, hopens, hwhole, hne, -⟩
  · exact absurd houtcome hkept
  have hsecond := filterWith_filtered parse hcolumn hopens hwhole hne
  have hends := (ofConfig c).filterWith_ends parse ((ofConfig c).filterWith parse sql).result
  exact ⟨(hends.compares (congrArg Filtering.outcome hsecond)).2, hsecond⟩

example :
    let c : Config := ⟨⟨"7", ["hist_a"], none⟩, ⟨32, 64, false⟩, ⟨"info"⟩⟩
    let f := (ofConfig c).filterWith (fun _ => .ok ()) "SELECT * FROM hist_a".toList
    c.validate.isOk = true ∧ f.outcome = .filtered ∧ comparesFlag f.result "7".toList = false := by
  decide +kernel

end Policy

end SoftDelete
