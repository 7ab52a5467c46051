import Mathlib.Data.List.Sort
import SoftDelete.Command.Run
import SoftDelete.Proofs.Select.Nesting

namespace SoftDelete

namespace Text

theorem le_antisymm {s t : Text} (hst : le s t = true) (hts : le t s = true) : s = t := by
  induction s generalizing t with
  | nil =>
      cases t with
      | nil => rfl
      | cons d t => simp [le] at hts
  | cons c s ih =>
      cases t with
      | nil => simp [le] at hst
      | cons d t =>
          simp only [le, Bool.or_eq_true, Bool.and_eq_true, decide_eq_true_eq,
            beq_iff_eq] at hst hts
          rcases hst with hcd | ⟨rfl, hst⟩
          · rcases hts with hdc | ⟨rfl, _⟩
            · exact absurd hcd (Nat.lt_asymm hdc)
            · exact absurd hcd (Nat.lt_irrefl _)
          · rcases hts with hcc | ⟨_, hts⟩
            · exact absurd hcc (Nat.lt_irrefl _)
            · rw [ih hst hts]

def Before (s t : Text) : Prop :=
  le s t = true ∧ s ≠ t

instance : Std.Irrefl Before :=
  ⟨fun _ h => h.2 rfl⟩

instance : Std.Antisymm Before :=
  ⟨fun _ _ hst hts => le_antisymm hst.1 hts.1⟩

end Text

theorem nodup_eraseDups {α : Type} [BEq α] [LawfulBEq α] (names : List α) :
    names.eraseDups.Nodup := by
  induction hn : names.length using Nat.strong_induction_on generalizing names with
  | _ n ih =>
      subst hn
      cases names with
      | nil => simp
      | cons a rest =>
          rw [List.eraseDups_cons, List.nodup_cons, List.mem_eraseDups]
          refine ⟨by simp, ih _ ?_ _ rfl⟩
          exact Nat.lt_succ_of_le (List.length_filter_le _ _)

namespace FlagConfig

theorem foldl_addTable (tables names : List String) :
    names.foldl addTable tables = tables ++ (names.removeAll tables).eraseDups := by
  induction names generalizing tables with
  | nil => simp [List.removeAll]
  | cons name names ih =>
      by_cases h : name ∈ tables
      · simp [ih, addTable, h, List.removeAll]
      · have hmore : addTable tables name = tables ++ [name] := by
          simp [addTable, h]
        have hrest : names.removeAll (tables ++ [name]) =
            (names.removeAll tables).filter fun b => !b == name := by
          rw [List.removeAll, List.removeAll, List.filter_filter]
          refine List.filter_congr fun b _ => ?_
          rw [Bool.eq_iff_iff]
          simp [and_comm]
        rw [List.foldl_cons, ih, hmore, hrest, List.append_assoc, List.singleton_append]
        simp only [List.removeAll, List.filter_cons]
        simp [h, List.eraseDups_cons]

end FlagConfig

namespace Config

def addAll (c : Config) (lists : List (List String)) : Config :=
  lists.foldl addTables c

theorem addAll_tables (c : Config) (lists : List (List String)) :
    (c.addAll lists).flag.tables =
      c.flag.tables ++ (lists.flatten.removeAll c.flag.tables).eraseDups := by
  have hfold : (c.addAll lists).flag.tables =
      lists.flatten.foldl FlagConfig.addTable c.flag.tables := by
    induction lists generalizing c with
    | nil => rfl
    | cons list lists ih =>
        rw [List.flatten_cons, List.foldl_append]
        exact ih (c.addTables list)
  rw [hfold, FlagConfig.foldl_addTable]

theorem mem_addAll_tables {c : Config} {lists : List (List String)} {name : String} :
    name ∈ (c.addAll lists).flag.tables ↔
      name ∈ c.flag.tables ∨ ∃ list ∈ lists, name ∈ list := by
  rw [addAll_tables]
  by_cases h : name ∈ c.flag.tables
  · simp [h]
  · simp [h, List.removeAll]

theorem addAll_eq (c : Config) (lists : List (List String)) :
    c.addAll lists =
      { c with flag := { c.flag with tables := (c.addAll lists).flag.tables } } := by
  induction lists generalizing c with
  | nil => rfl
  | cons list lists ih => exact ih (c.addTables list)

end Config

def Catalog.SameNames (r r' : Catalog) : Prop :=
  ∀ name, name ∈ r.names ↔ name ∈ r'.names

namespace Catalog

theorem tables_before (r : Catalog) : r.tables.Pairwise Text.Before := by
  have hnodup : r.tables.Nodup := (nodup_eraseDups r.names).mergeSort
  exact r.tables_pairwise.and hnodup

variable {r r' : Catalog}

theorem SameNames.tables_eq (h : r.SameNames r') : r.tables = r'.tables := by
  refine List.Pairwise.eq_of_mem_iff r.tables_before r'.tables_before fun name => ?_
  rw [mem_tables, mem_tables]
  exact h name

theorem SameNames.contains_eq (h : r.SameNames r') : r.contains = r'.contains := by
  funext name
  rw [Bool.eq_iff_iff, contains_iff, contains_iff]
  exact h _

end Catalog

section

variable {r r' : Catalog} (h : r.contains = r'.contains)
include h

theorem Item.namesTable_congr : Item.namesTable r = Item.namesTable r' := by
  funext i
  cases i <;> simp only [Item.namesTable, h]

theorem Reference.target_congr : Reference.target r = Reference.target r' := by
  funext t
  simp only [Reference.target, h]

theorem Walk.run_congr (first : Option Text) (w : Walk) (joins : List Join) :
    Walk.run r first w joins = Walk.run r' first w joins := by
  induction joins generalizing w with
  | nil => rfl
  | cons join joins ih => simp only [Walk.run, Reference.target_congr h, ih]

theorem References.plan_congr : References.plan r = References.plan r' := by
  funext t
  simp only [References.plan, Reference.target_congr h, Walk.run_congr h]

theorem bodyEdit_congr (options : Options) (l : Level) (start : Nat) (body : List Item) :
    bodyEdit r options l start body = bodyEdit r' options l start body := by
  simp only [bodyEdit, Item.namesTable_congr h, References.plan_congr h]

theorem bodyEdits_congr (options : Options) (l : Level) (start : Nat)
    (bodies : List (List Item)) :
    bodyEdits r options l start bodies = bodyEdits r' options l start bodies := by
  induction bodies generalizing start with
  | nil => rfl
  | cons body later ih => simp only [bodyEdits, bodyEdit_congr h, ih]

theorem closeLevel_congr (options : Options) (depth start : Nat) (items : List Item)
    (unclosed : List Token) (tail : Text) :
    closeLevel r options depth start items unclosed tail =
      closeLevel r' options depth start items unclosed tail := by
  cases unclosed with
  | cons t ts => rfl
  | nil =>
      have hnames : (Level.mk items tail).namesTable r = (Level.mk items tail).namesTable r' := by
        rw [Level.namesTable, Level.namesTable, Item.namesTable_congr h]
      have hedit : (Level.mk items tail).filterEdit r options =
          (Level.mk items tail).filterEdit r' options :=
        bodyEdits_congr h options _ 0 _
      rw [closeLevel, closeLevel, hnames, hedit]

theorem filterLevel_congr (options : Options) (room depth offset : Nat) (sql : Text) :
    filterLevel r options room depth offset sql = filterLevel r' options room depth offset sql := by
  induction room generalizing depth offset sql with
  | zero => simp only [filterLevel_eq, nestedFilter, closeLevel_congr h]
  | succ room ih =>
      have hnested : filterLevel r options room (depth + 1) =
          filterLevel r' options room (depth + 1) := by
        funext offset sql
        exact ih (depth + 1) offset sql
      simp only [filterLevel_eq, nestedFilter, hnested, closeLevel_congr h]

end

theorem Policy.filterWith_congr {p p' : Policy} (hnames : p.catalog.SameNames p'.catalog)
    (hoptions : p.options = p'.options) (parse : Text → Except String Unit) (sql : Text) :
    p.filterWith parse sql = p'.filterWith parse sql := by
  have hattempt : p.attempt parse sql = p'.attempt parse sql := by
    simp only [attempt, hoptions, filterLevel_congr hnames.contains_eq]
  simp only [filterWith, hoptions, hattempt]

namespace Config

theorem sameNames_of_tables {c c' : FlagConfig}
    (h : ∀ name, name ∈ c.tables ↔ name ∈ c'.tables) :
    (Catalog.ofConfig c).SameNames (Catalog.ofConfig c') := by
  intro name
  simp only [Catalog.ofConfig, List.mem_map]
  exact exists_congr fun table => and_congr_left fun _ => h table

theorem mem_tables_ofConfig {c : FlagConfig} {name : Text} :
    name ∈ (Catalog.ofConfig c).tables ↔ String.ofList name ∈ c.tables := by
  rw [Catalog.mem_tables, Catalog.ofConfig, List.mem_map]
  constructor
  · rintro ⟨table, htable, rfl⟩
    rwa [String.ofList_toList]
  · intro hname
    exact ⟨String.ofList name, hname, String.toList_ofList⟩

theorem place_of_names_irrelevant (c c' : Config) (lists lists' : List (List String)) :
    ((c.addAll lists).flag.tables =
        c.flag.tables ++ (lists.flatten.removeAll c.flag.tables).eraseDups ∧
      (lists.flatten.removeAll c.flag.tables).eraseDups.Nodup ∧
      (∀ name, name ∈ (c.addAll lists).flag.tables ↔
        name ∈ c.flag.tables ∨ ∃ list ∈ lists, name ∈ list) ∧
      ∀ name, name ∈ (Catalog.ofConfig (c.addAll lists).flag).tables ↔
        String.ofList name ∈ (c.addAll lists).flag.tables) ∧
    (c.flag.column = c'.flag.column → c.limits = c'.limits →
      (∀ name, name ∈ (c.addAll lists).flag.tables ↔
        name ∈ (c'.addAll lists').flag.tables) →
      (∀ parse sql, (Policy.ofConfig (c.addAll lists)).filterWith parse sql =
        (Policy.ofConfig (c'.addAll lists')).filterWith parse sql) ∧
      (Catalog.ofConfig (c.addAll lists).flag).tables =
        (Catalog.ofConfig (c'.addAll lists').flag).tables ∧
      (Catalog.ofConfig (c.addAll lists).flag).tables.Pairwise Text.Before) := by
  refine ⟨⟨addAll_tables c lists, nodup_eraseDups _, fun name => mem_addAll_tables,
    fun name => mem_tables_ofConfig⟩, ?_⟩
  intro hcolumn hlimits hnames
  have hsame := sameNames_of_tables hnames
  have hoptions : (Policy.ofConfig (c.addAll lists)).options =
      (Policy.ofConfig (c'.addAll lists')).options := by
    rw [addAll_eq c lists, addAll_eq c' lists']
    simp only [Policy.ofConfig, Options.ofConfig, hcolumn, hlimits]
  exact ⟨Policy.filterWith_congr hsame hoptions, hsame.tables_eq, Catalog.tables_before _⟩

theorem place_of_names_irrelevant_shared :
    let c : Config := { flag := { tables := ["hist_b", "hist_b"] } }
    let c' : Config := { flag := { tables := ["hist_c", "hist_a"] } }
    let lists := [["hist_a"], ["hist_b", "hist_c", "hist_a"]]
    let lists' := [["hist_b"]]
    (c.addAll lists).flag.tables = ["hist_b", "hist_b", "hist_a", "hist_c"] ∧
      (c'.addAll lists').flag.tables = ["hist_c", "hist_a", "hist_b"] ∧
      ∀ parse sql, (Policy.ofConfig (c.addAll lists)).filterWith parse sql =
        (Policy.ofConfig (c'.addAll lists')).filterWith parse sql := by
  intro c c' lists lists'
  have hlist : (c.addAll lists).flag.tables = ["hist_b", "hist_b", "hist_a", "hist_c"] := by
    decide
  have hlist' : (c'.addAll lists').flag.tables = ["hist_c", "hist_a", "hist_b"] := by decide
  have hnames : ∀ name, name ∈ (c.addAll lists).flag.tables ↔
      name ∈ (c'.addAll lists').flag.tables := by
    intro name
    rw [hlist, hlist']
    simp only [List.mem_cons, List.not_mem_nil, or_false]
    tauto
  exact ⟨hlist, hlist', ((place_of_names_irrelevant c c' lists lists').2 rfl rfl hnames).1⟩

theorem eq_of_validated {c c' : Config} (h : c.validated = .ok c') : c = c' := by
  unfold validated at h
  split at h
  · exact Except.ok.inj h
  · cases h

theorem addAll_concat (c : Config) (lists : List (List String)) (names : List String) :
    c.addAll (lists ++ [names]) = (c.addAll lists).addTables names := by
  simp [addAll]

/-- The configuration as its file has it, and the list of its tables file if it names one. Without
a file the configuration is the standard one. -/
def Given (r : Reader) (s : Surroundings Id) : Option String → Config → List (List String) → Prop
  | none, c, lists => c = {} ∧ lists = []
  | some path, c, lists =>
      ∃ content, s.file path = .text content ∧ r.config content = .ok c ∧
        match c.flag.tablesFile with
        | none => lists = []
        | some file => ∃ extra, lists = [extra] ∧
            readTables r s (Path.join ((Path.parent? path).getD ".") file) = .ok extra

theorem exists_given_of_load {r : Reader} {s : Surroundings Id} {path : String} {c : Config}
    (h : loadWith r s path = .ok c) :
    ∃ base lists, Given r s (some path) base lists ∧ c = base.addAll lists := by
  unfold loadWith at h
  change (match s.file path with
    | .missing | .unreadable => pure (.error .io)
    | .text content => _ : Id (Except LoadError Config)) = .ok c at h
  split at h
  · cases h
  · cases h
  rename_i content hcontent
  split at h
  · cases h
  rename_i base hbase
  split at h
  · rename_i hfile
    refine ⟨base, [], ⟨content, hcontent, hbase, ?_⟩, (eq_of_validated h).symm⟩
    rw [hfile]
  · rename_i file hfile
    change (match readTables r s (Path.join ((Path.parent? path).getD ".") file) with
      | .error e => pure (.error e)
      | .ok extra => pure (base.addTables extra).validated : Id (Except LoadError Config)) =
        .ok c at h
    split at h
    · cases h
    rename_i extra hextra
    refine ⟨base, [extra], ⟨content, hcontent, hbase, ?_⟩, (eq_of_validated h).symm⟩
    rw [hfile]
    exact ⟨extra, rfl, hextra⟩

end Config

theorem Command.exists_given_of_policyOf {r : Config.Reader} {s : Surroundings Id}
    {config : Option String} {names : List String} {p : Policy}
    (h : policyOf r s config names = some p) :
    ∃ base lists, Config.Given r s config base lists ∧
      p = .ofConfig (base.addAll (lists ++ [names])) := by
  have hvalid : ∀ {c d : Config}, (c.addTables names).validated = .ok d →
      d = c.addTables names := fun h => (Config.eq_of_validated h).symm
  cases config with
  | none =>
      simp only [policyOf, bind, pure] at h
      split at h
      · rename_i d hd
        cases h
        exact ⟨{}, [], ⟨rfl, rfl⟩, by rw [hvalid hd]; rfl⟩
      · cases h
  | some path =>
      simp only [policyOf, bind, pure] at h
      split at h
      · rename_i d hd
        cases h
        obtain ⟨c, hc, hd⟩ := exists_of_bind_ok hd
        obtain ⟨base, lists, hgiven, rfl⟩ := Config.exists_given_of_load hc
        exact ⟨base, lists, hgiven, by rw [hvalid hd, Config.addAll_concat]⟩
      · cases h

end SoftDelete
