import SoftDelete.Proofs.Characters
import SoftDelete.Proofs.Guard
import SoftDelete.Proofs.Merging

namespace SoftDelete

namespace Text

theorem lines_eq_splitOn (s : Text) : lines s = s.splitOn '\n' := by
  induction s with
  | nil => rfl
  | cons c s ih =>
      rw [List.splitOn, List.splitOnP_cons_eq_if_modifyHead, ← List.splitOn, ← ih, lines]
      by_cases hc : c = '\n'
      · simp [hc]
      · obtain ⟨line, rest, hlines⟩ := List.exists_cons_of_ne_nil (lines_ne_nil s)
        simp [hc, hlines]

theorem lines_append (s t : Text) : lines (s ++ '\n' :: t) = lines s ++ lines t := by
  simp only [lines_eq_splitOn]
  exact List.splitOnP_append_cons s t (by simp)

theorem lines_of_not_mem {s : Text} (h : '\n' ∉ s) : lines s = [s] := by
  rw [lines_eq_splitOn]
  refine List.splitOnP_eq_singleton fun c hc => ?_
  rw [beq_eq_false_iff_ne]
  rintro rfl
  exact h hc

theorem lines_joined {ls : List Text} (h : ∀ line ∈ ls, '\n' ∉ line) (hne : ls ≠ []) :
    lines (joined "\n" ls) = ls := by
  rw [lines_eq_splitOn]
  exact List.splitOn_intercalate '\n' h hne

theorem not_mem_of_mem_lines {s line : Text} (h : line ∈ lines s) : '\n' ∉ line := by
  induction s generalizing line with
  | nil =>
      rw [List.mem_singleton.1 h]
      exact List.not_mem_nil
  | cons c s ih =>
      rw [lines] at h
      split at h
      · rcases List.mem_cons.1 h with rfl | h
        · exact List.not_mem_nil
        · exact ih h
      · rename_i hc
        split at h
        · rename_i hnil
          exact absurd hnil (lines_ne_nil s)
        · rename_i first rest hlines
          rw [hlines] at ih
          rcases List.mem_cons.1 h with rfl | h
          · rw [List.mem_cons, not_or]
            exact ⟨Ne.symm hc, ih (by simp)⟩
          · exact ih (List.mem_cons_of_mem _ h)

theorem trim_subset (s : Text) : trim s ⊆ s := by
  intro c hc
  rw [trim, List.mem_reverse] at hc
  have hc := (List.dropWhile_sublist isBlank).mem hc
  exact (List.dropWhile_sublist isBlank).mem (List.mem_reverse.1 hc)

theorem trim_eq_nil_iff {s : Text} : trim s = [] ↔ s.all isBlank = true := by
  rw [trim, List.reverse_eq_nil_iff, List.dropWhile_eq_nil_iff]
  constructor
  · intro h
    -- What is left of `s` begins with a character that is not blank, if it begins at all.
    cases hs : s.dropWhile isBlank with
    | nil => exact List.all_eq_true.2 (List.dropWhile_eq_nil_iff.1 hs)
    | cons c rest =>
        have hhead := List.head?_dropWhile_not isBlank s
        rw [hs] at hhead h
        have hc := h c (by simp)
        simp [hc] at hhead
  · intro h c hc
    exact List.all_eq_true.1 h c ((List.dropWhile_sublist isBlank).mem (List.mem_reverse.1 hc))

theorem trim_concat_blank {c : Char} (hc : isBlank c = true) (s : Text) :
    trim (s ++ [c]) = trim s := by
  rw [trim, trim, List.dropWhile_append]
  split
  · rename_i hs
    rw [List.isEmpty_iff.1 hs]
    simp [hc]
  · simp [hc]

theorem trim_withoutReturn (line : Text) : trim (withoutReturn line) = trim line := by
  unfold withoutReturn
  split
  · rename_i hlast
    obtain ⟨s, rfl⟩ := List.getLast?_eq_some_iff.1 hlast
    rw [List.dropLast_concat, trim_concat_blank (by decide)]
  · rfl

def nonblankLines (s : Text) : List Text :=
  (lines s).filter fun line => !line.all isBlank

theorem nonblankLines_append (s t : Text) :
    nonblankLines (s ++ '\n' :: t) = nonblankLines s ++ nonblankLines t := by
  simp [nonblankLines, lines_append]

end Text

namespace Command

theorem statements_eq_trimmed (content : Text) :
    statements content = ((Text.lines content).map Text.trim).filter fun line => !line.isEmpty := by
  obtain ⟨front, last, hlines⟩ :=
    (List.eq_nil_or_concat (Text.lines content)).resolve_left (Text.lines_ne_nil content)
  rw [List.concat_eq_append] at hlines
  have hfront : (front.map Text.withoutReturn).map Text.trim = front.map Text.trim := by
    simp [Function.comp_def, Text.trim_withoutReturn]
  rw [statements, Text.readLines, hlines]
  cases last with
  | nil => simp [hfront, Text.trim]
  | cons c last => simp [hfront]

theorem statements_eq (content : Text) :
    statements content = (Text.nonblankLines content).map Text.trim := by
  have hblank : ∀ line : Text, (Text.trim line).isEmpty = line.all isBlank := fun line => by
    rw [Bool.eq_iff_iff, List.isEmpty_iff, Text.trim_eq_nil_iff]
  rw [statements_eq_trimmed, List.filter_map, Text.nonblankLines]
  simp only [Function.comp_def, hblank]

theorem statements_joined (content : Text) :
    statements (Text.joined "\n" (Text.readLines content)) = statements content := by
  by_cases hnil : Text.readLines content = []
  · rw [hnil, statements, statements, hnil]
    rfl
  · have hline : ∀ line ∈ Text.readLines content, '\n' ∉ line := by
      intro line hline
      rcases List.mem_append.1 hline with hline | hline
      · obtain ⟨whole, hwhole, rfl⟩ := List.mem_map.1 hline
        have hnot := Text.not_mem_of_mem_lines (List.dropLast_subset _ hwhole)
        unfold Text.withoutReturn
        split
        · exact fun hmem => hnot (List.dropLast_subset _ hmem)
        · exact hnot
      · have hlast := Option.mem_toList.1 (List.mem_of_mem_filter hline)
        exact Text.not_mem_of_mem_lines (List.mem_of_getLast? hlast)
    rw [statements_eq_trimmed, Text.lines_joined hline hnil, statements]

theorem statements_append (content more : Text) :
    statements (content ++ '\n' :: more) = statements content ++ statements more := by
  simp [statements_eq, Text.nonblankLines_append]

theorem written_append (ls more : List String) : written (ls ++ more) = written ls ++ written more := by
  simp [written, String.join_append]

theorem lines_written {ls : List String} (h : ∀ line ∈ ls, '\n' ∉ line.toList) :
    Text.lines (written ls).toList = ls.map String.toList ++ [[]] := by
  induction ls with
  | nil => rfl
  | cons line ls ih =>
      obtain ⟨hline, hls⟩ := List.forall_mem_cons.1 h
      have hcons : (written (line :: ls)).toList = line.toList ++ '\n' :: (written ls).toList := by
        simp [written, String.toList_join]
      rw [hcons, Text.lines_append, Text.lines_of_not_mem hline, ih hls]
      rfl

variable {r : Readers} {s : Surroundings Id} {config : Option String} {tables : List String}
  {p : Policy}

theorem exists_valid_of_policyOf {r : Config.Reader} (h : policyOf r s config tables = some p) :
    ∃ c : Config, c.validate = .ok () ∧ p = .ofConfig c := by
  have hvalid : ∀ {c d : Config}, c.validated = .ok d → d.validate = .ok () := by
    intro c d hd
    obtain rfl := Config.eq_of_validated hd
    unfold Config.validated at hd
    split at hd
    · assumption
    · cases hd
  cases config with
  | none =>
      simp only [policyOf, bind, pure] at h
      split at h
      · rename_i c hc
        cases h
        exact ⟨c, hvalid hc, rfl⟩
      · cases h
  | some path =>
      simp only [policyOf, bind, pure] at h
      split at h
      · rename_i c hc
        cases h
        obtain ⟨base, -, hc⟩ := exists_of_bind_ok hc
        exact ⟨c, hvalid hc, rfl⟩
      · cases h

-- A configured column is a name, so a line stays a line whatever is filtered in it.
theorem newline_not_mem_filter (h : policyOf r.config s config tables = some p) {sql : Text}
    (hsql : '\n' ∉ sql) : '\n' ∉ (p.filterWith r.parse sql).result := by
  obtain ⟨c, hc, rfl⟩ := exists_valid_of_policyOf h
  have hcolumn : '\n' ∉ c.flag.column.toList := by
    intro hmem
    have hname := List.all_eq_true.1 (Config.column_of_validate hc).2 '\n' hmem
    exact absurd hname (by decide)
  intro hmem
  have hmem := Policy.filterWith_subset r.parse (.ofConfig c) sql hmem
  simp only [List.mem_append] at hmem
  rcases hmem with hmem | hmem | hmem
  · exact hsql hmem
  · exact hcolumn hmem
  · exact absurd hmem (by decide)

theorem lines_filteredLines (h : policyOf r.config s config tables = some p) (content : Text) :
    Text.lines (filteredLines r.parse p false (statements content)).toList =
      (Text.nonblankLines content).map
        (fun line => (p.filterWith r.parse (Text.trim line)).result) ++ [[]] := by
  rw [filteredLines, lines_written, statements_eq]
  · simp [Function.comp_def]
  · intro line hline
    rw [statements_eq, List.map_map] at hline
    obtain ⟨given, hgiven, rfl⟩ := List.mem_map.1 hline
    have hline := Text.not_mem_of_mem_lines (List.mem_of_mem_filter hgiven)
    simpa using newline_not_mem_filter h fun hmem => hline (Text.trim_subset given hmem)

end Command

def Surroundings.withInput (s : Surroundings Id) (content : String) : Surroundings Id :=
  { s with standardInput := some content }

namespace Command

variable {r : Readers} {s : Surroundings Id} {config : Option String} {tables : List String}
  {given : List String}

theorem run_filter (r : Readers) (s : Surroundings Id) (sql file config : Option String)
    (tables : List String) (json : Bool) :
    run r s (.filter sql file config tables json) =
      (policyOf r.config s config tables).elim (failed "") fun p =>
        (statementsOf s sql file).elim (failed "") fun sqls =>
          succeeded (filteredLines r.parse p json sqls) := by
  cases hpolicy : policyOf r.config s config tables with
  | none => simp [run, bind, pure, hpolicy]
  | some p => cases hsqls : statementsOf s sql file <;> simp [run, bind, pure, hpolicy, hsqls]

theorem executeWith_filter {sql file : Option String} {json : Bool}
    (h : r.request (s.setting configVariable) given = .run (.filter sql file config tables json)) :
    executeWith r s given =
      (policyOf r.config s config tables).elim (failed "") fun p =>
        (statementsOf s sql file).elim (failed "") fun sqls =>
          succeeded (filteredLines r.parse p json sqls) := by
  rw [← run_filter]
  simp [executeWith, bind, h]

def lineResult (parse : Text → Except String Unit) (policy : Option Policy) (content : Text) :
    Result :=
  policy.elim (failed "") fun p => succeeded (filteredLines parse p false (statements content))

theorem executeWith_input
    (h : r.request (s.setting configVariable) given = .run (.filter none none config tables false))
    (content : String) :
    executeWith r (s.withInput content) given =
      lineResult r.parse (policyOf r.config s config tables) content.toList := by
  have hrequest : r.request ((s.withInput content).setting configVariable) given =
      .run (.filter none none config tables false) := h
  have hpolicy : policyOf r.config (s.withInput content) config tables =
      policyOf r.config s config tables := rfl
  have hstatements : statementsOf (s.withInput content) none none =
      some (statements (Text.joined "\n" (Text.readLines content.toList))) := rfl
  rw [executeWith_filter hrequest, hpolicy, hstatements, statements_joined]
  rfl

theorem executeWith_file {path content : String}
    (h : r.request (s.setting configVariable) given =
      .run (.filter none (some path) config tables false)) (hfile : s.file path = .text content) :
    executeWith r s given =
      lineResult r.parse (policyOf r.config s config tables) content.toList := by
  have hstatements : statementsOf s none (some path) = some (statements content.toList) := by
    simp [statementsOf, bind, pure, hfile]
  rw [executeWith_filter h, hstatements]
  rfl

theorem output_of_failed (r : Readers) (s : Surroundings Id) (given : List String)
    (hcheck : ∀ path, r.request (s.setting configVariable) given ≠ .run (.check path))
    (h : (executeWith r s given).exitCode ≠ 0) : (executeWith r s given).output = "" := by
  cases hrequest : r.request (s.setting configVariable) given with
  | print text => exact absurd (by simp [executeWith, bind, pure, hrequest, succeeded]) h
  | refuse => simp [executeWith, bind, pure, hrequest, wrongUsage]
  | run command =>
      cases command with
      | check path => exact absurd hrequest (hcheck path)
      | filter sql file config tables json =>
          rw [executeWith_filter hrequest] at h ⊢
          cases hpolicy : policyOf r.config s config tables with
          | none => rfl
          | some p =>
              cases hsqls : statementsOf s sql file with
              | none => rfl
              | some sqls =>
                  rw [hpolicy, hsqls] at h
                  exact absurd rfl h
      | tables path =>
          have hrun : executeWith r s given = run r s (.tables path) := by
            simp [executeWith, bind, hrequest]
          rw [hrun] at h ⊢
          cases hload : Config.loadWith r.config s path with
          | error e => simp [run, bind, pure, hload, failed]
          | ok c => exact absurd (by simp [run, bind, pure, hload, succeeded]) h

/-- However arguments, configurations and SQL are read: whether the text stands in a file or comes from
standard input, each line of it that is not blank comes to one line, what is left of it without the
white space around it being filtered, or the command fails. Only `check` writes something and fails. -/
theorem executeWith_line_by_line {onInput onFile : List String} {path : String}
    (h : r.request (s.setting configVariable) onInput =
      .run (.filter none none config tables false))
    (hfile : r.request (s.setting configVariable) onFile =
      .run (.filter none (some path) config tables false)) :
    let lines (content : String) : Result := executeWith r (s.withInput content) onInput
    (∀ content, s.file path = .text content → executeWith r s onFile = lines content) ∧
    ((policyOf r.config s config tables = none ∧ ∀ content, lines content = failed "") ∨
      ∃ p : Policy, policyOf r.config s config tables = some p ∧ ∀ content,
        (lines content).exitCode = 0 ∧
        Text.lines (lines content).output.toList =
          (Text.nonblankLines content.toList).map
            (fun line => (p.filterWith r.parse (Text.trim line)).result) ++ [[]]) ∧
    (∀ content more, (lines (content ++ "\n" ++ more)).output =
      (lines content).output ++ (lines more).output) ∧
    ∀ (machine : Surroundings Id) (given : List String),
      (∀ config, r.request (machine.setting configVariable) given ≠ .run (.check config)) →
      (executeWith r machine given).exitCode ≠ 0 → (executeWith r machine given).output = "" := by
  intro lines
  have hlines : ∀ content, lines content =
      lineResult r.parse (policyOf r.config s config tables) content.toList := executeWith_input h
  refine ⟨fun content hcontent => ?_, ?_, fun content more => ?_, output_of_failed r⟩
  · rw [executeWith_file hfile hcontent, hlines]
  · cases hpolicy : policyOf r.config s config tables with
    | none => exact .inl ⟨rfl, fun content => by rw [hlines, hpolicy]; rfl⟩
    | some p =>
        refine .inr ⟨p, rfl, fun content => ?_⟩
        rw [hlines, hpolicy]
        exact ⟨rfl, lines_filteredLines hpolicy content.toList⟩
  · have htext : (content ++ "\n" ++ more).toList = content.toList ++ '\n' :: more.toList := by
      simp
    rw [hlines, hlines, hlines, htext]
    cases policyOf r.config s config tables with
    | none => rfl
    | some p =>
        simp only [lineResult, Option.elim_some, succeeded, filteredLines, statements_append,
          List.map_append, written_append]

theorem executeWith_line_by_line_returns :
    let r := Readers.standard
    let text := "  SELECT * FROM hist_a\r\n\t\r\nSELECT 1 FROM hist_b b"
    let s : Surroundings Id :=
      ⟨fun path =>
          if path = "in.sql" then .text text
          else if path = "tomb.yaml" then .text "soft_delete:\n  tables: [hist_a]\n"
          else .missing,
        none, fun _ => some "tomb.yaml"⟩
    let onInput := ["rewrite", "--table", "hist_b"]
    let onFile := ["rewrite", "--table=hist_b", "--file", "in.sql"]
    let lines (content : String) : Result := executeWith r (s.withInput content) onInput
    r.request (s.setting configVariable) onInput =
        .run (.filter none none (some "tomb.yaml") ["hist_b"] false) ∧
      r.request (s.setting configVariable) onFile =
        .run (.filter none (some "in.sql") (some "tomb.yaml") ["hist_b"] false) ∧
      lines text = succeeded
        ("SELECT * FROM hist_a WHERE (hist_a.deleted = 0 OR hist_a.deleted IS NULL)\n" ++
          "SELECT 1 FROM hist_b b WHERE (b.deleted = 0 OR b.deleted IS NULL)\n") ∧
      (∀ content, s.file "in.sql" = .text content → executeWith r s onFile = lines content) ∧
      ((policyOf r.config s (some "tomb.yaml") ["hist_b"] = none ∧
          ∀ content, lines content = failed "") ∨
        ∃ p : Policy, policyOf r.config s (some "tomb.yaml") ["hist_b"] = some p ∧ ∀ content,
          (lines content).exitCode = 0 ∧
          Text.lines (lines content).output.toList =
            (Text.nonblankLines content.toList).map
              (fun line => (p.filterWith r.parse (Text.trim line)).result) ++ [[]]) ∧
      (∀ content more, (lines (content ++ "\n" ++ more)).output =
        (lines content).output ++ (lines more).output) ∧
      ∀ (machine : Surroundings Id) (given : List String),
        (∀ config, r.request (machine.setting configVariable) given ≠ .run (.check config)) →
        (executeWith r machine given).exitCode ≠ 0 → (executeWith r machine given).output = "" := by
  intro r text s onInput onFile lines
  have h : r.request (s.setting configVariable) onInput =
      .run (.filter none none (some "tomb.yaml") ["hist_b"] false) := by decide +kernel
  have hfile : r.request (s.setting configVariable) onFile =
      .run (.filter none (some "in.sql") (some "tomb.yaml") ["hist_b"] false) := by decide +kernel
  exact ⟨h, hfile, by decide +kernel, executeWith_line_by_line h hfile⟩

end Command

end SoftDelete
