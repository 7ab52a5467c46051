namespace SoftDelete

inductive Command where
  | filter (sql file config : Option String) (tables : List String) (json : Bool)
  | check (config : String)
  | tables (config : String)
  deriving DecidableEq, Repr

namespace Command

inductive Argument where
  | positional (value : String)
  | option (name : String) (value : String)
  | switch (name : String)
  deriving DecidableEq, Repr

structure OptionNames where
  withValue : List String
  switches : List String
  short : List (Char × String)

def isValue (argument : String) : Bool :=
  match argument.toList with
  | '-' :: _ :: _ => false
  | _ => true

def isLong (argument : String) : Bool :=
  "--".toList.isPrefixOf argument.toList

def cutAttached (argument : String) : String × Option String :=
  let body := argument.toList.drop 2
  let name := String.ofList (body.takeWhile (· != '='))
  match body.dropWhile (· != '=') with
  | _ :: value => (name, some (String.ofList value))
  | [] => (name, none)

def cutShort (argument : String) : Option (Char × Option String) :=
  match argument.toList with
  | ['-', c] => some (c, none)
  | '-' :: c :: '=' :: value => some (c, some (String.ofList value))
  | '-' :: c :: value => some (c, some (String.ofList value))
  | _ => none

def arguments (known : OptionNames) : List String → Option (List Argument)
  | [] => some []
  | "--" :: rest => some (rest.map .positional)
  | argument :: rest =>
      let withValue (name : String) : Option String → Option (List Argument)
        | some value => (arguments known rest).map (.option name value :: ·)
        | none =>
            match rest with
            | value :: later =>
                if isValue value then (arguments known later).map (.option name value :: ·)
                else none
            | [] => none
      if isValue argument then (arguments known rest).map (.positional argument :: ·)
      else if isLong argument then
        let (name, value) := cutAttached argument
        if known.withValue.contains name then withValue name value
        else if known.switches.contains name && value.isNone then
          (arguments known rest).map (.switch name :: ·)
        else none
      else match cutShort argument with
        | some (c, value) => (known.short.lookup c).bind (withValue · value)
        | none => none

def valuesOf (name : String) (arguments : List Argument) : List String :=
  arguments.filterMap fun
    | .option n value => if n = name then some value else none
    | _ => none

def positionals (arguments : List Argument) : List String :=
  arguments.filterMap fun
    | .positional value => some value
    | _ => none

/-- What may be given once. The outer `none` stands for wrong usage. -/
def single : List String → Option (Option String)
  | [] => some none
  | [value] => some (some value)
  | _ => none

def path (value : Option String) : Option (Option String) :=
  if value = some "" then none else some value

def chosenConfig (environment : Option String) (arguments : List Argument) :
    Option (Option String) := do
  let given ← single (valuesOf "config" arguments)
  path (given <|> environment)

def ofFilterArguments (environment : Option String) (rest : List String) : Option Command := do
  let given ← arguments ⟨["file", "config", "table"], ["json"], [('c', "config")]⟩ rest
  let sql ← single (positionals given)
  let file ← (single (valuesOf "file" given)).bind path
  let config ← chosenConfig environment given
  let switches := given.filter (· == .switch "json")
  if switches.length > 1 || (sql.isSome && file.isSome) then none
  else some (.filter sql file config (valuesOf "table" given) (!switches.isEmpty))

def ofConfigArguments (environment : Option String) (rest : List String)
    (command : String → Command) : Option Command := do
  let given ← arguments ⟨["config"], [], [('c', "config")]⟩ rest
  let config ← chosenConfig environment given
  if (positionals given).isEmpty then some (command (config.getD "tomb.yaml")) else none

end Command

inductive Request where
  | run (command : Command)
  | print (text : String)
  | refuse
  deriving DecidableEq, Repr

namespace Request

def ofCommand? (command : Option Command) : Request :=
  command.elim .refuse .run

def version : Request :=
  .print "tomb 0.1.0\n"

def ofArguments (environment : Option String) : List String → Request
  | "rewrite" :: rest => ofCommand? (Command.ofFilterArguments environment rest)
  | "check" :: rest => ofCommand? (Command.ofConfigArguments environment rest .check)
  | "tables" :: rest => ofCommand? (Command.ofConfigArguments environment rest .tables)
  | "--version" :: _ => version
  | argument :: _ => if "-V".toList.isPrefixOf argument.toList then version else refuse
  | [] => refuse

end Request

end SoftDelete
