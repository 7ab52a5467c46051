import SoftDelete.Command.Arguments
import SoftDelete.Config.Yaml

namespace SoftDelete

/-- How arguments, configurations and SQL are read. What a program does with what was read is the same
for every choice of them. -/
structure Readers where
  request : Option String → List String → Request
  config : Config.Reader
  parse : Text → Except String Unit

def Readers.standard : Readers :=
  ⟨Request.ofArguments, .yaml, parseStatements⟩

namespace Command

structure Result where
  exitCode : Nat
  output : String
  deriving DecidableEq, Repr

def succeeded (output : String) : Result :=
  ⟨0, output⟩

def failed (output : String) : Result :=
  ⟨1, output⟩

def wrongUsage : Result :=
  ⟨2, ""⟩

def written (lines : List String) : String :=
  String.join (lines.map (· ++ "\n"))

def statements (content : Text) : List Text :=
  ((Text.readLines content).map Text.trim).filter fun line => !line.isEmpty

def filteredLines (parse : Text → Except String Unit) (policy : Policy) (json : Bool)
    (sqls : List Text) : String :=
  written (sqls.map fun sql =>
    let f := policy.filterWith parse sql
    if json then f.json else String.ofList f.result)

def summary (policy : Policy) : List String :=
  let options := policy.options
  let tables := policy.catalog.tables
  ["",
    "  Flag column:   " ++ String.ofList options.column,
    "  Max depth:     " ++ toString options.maxDepth,
    "  Max joins:     " ++ toString options.maxJoins,
    "  Verify output: " ++ (if options.verifyOutput then "true" else "false"),
    "  Tables (" ++ toString tables.length ++ "):"] ++
    tables.map (fun table => "    - " ++ String.ofList table) ++
    ["",
      if tables.isEmpty then
        "⚠️  No soft-delete tables configured; every statement will pass through."
      else "✅ Configuration is valid."]

variable {m : Type → Type} [Monad m]

def policyOf (r : Config.Reader) (s : Surroundings m) (config : Option String)
    (tables : List String) : m (Option Policy) := do
  let base ← match config with
    | some path => Config.loadWith r s path
    | none => pure (.ok {})
  pure <| match base.bind fun c => (c.addTables tables).validated with
    | .ok c => some (.ofConfig c)
    | .error _ => none

def statementsOf (s : Surroundings m) : Option String → Option String → m (Option (List Text))
  | some sql, _ => pure (some [sql.toList])
  | none, some file => do
      match ← s.file file with
      | .text content => pure (some (statements content.toList))
      | .missing | .unreadable => pure none
  | none, none => do
      let input ← s.standardInput
      pure (input.map fun content => statements (Text.joined "\n" (Text.readLines content.toList)))

def run (r : Readers) (s : Surroundings m) : Command → m Result
  | .filter sql file config extra json => do
      match ← policyOf r.config s config extra with
      | none => pure (failed "")
      | some policy =>
          match ← statementsOf s sql file with
          | none => pure (failed "")
          | some sqls => pure (succeeded (filteredLines r.parse policy json sqls))
  | .check config => do
      let first := "🔍 Checking Tomb configuration " ++ quotedPath config ++ "..."
      match ← Config.loadWith r.config s config with
      | .ok c => pure (succeeded (written (first :: summary (.ofConfig c))))
      | .error _ => pure (failed (written [first]))
  | .tables config => do
      match ← Config.loadWith r.config s config with
      | .ok c =>
          let tables := (Catalog.ofConfig c.flag).tables
          pure (succeeded (written (tables.map String.ofList)))
      | .error _ => pure (failed "")

def configVariable : String :=
  "TOMB_CONFIG"

def executeWith (r : Readers) (s : Surroundings m) (arguments : List String) : m Result := do
  match r.request (← s.setting configVariable) arguments with
  | .run command => command.run r s
  | .print text => pure (succeeded text)
  | .refuse => pure wrongUsage

def execute (s : Surroundings m) (arguments : List String) : m Result :=
  executeWith .standard s arguments

end Command

end SoftDelete
