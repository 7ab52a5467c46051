import SoftDelete.Policy
import SoftDelete.Text.Quoted

namespace SoftDelete

structure FlagConfig where
  column : String := "deleted"
  tables : List String := []
  tablesFile : Option String := none
  deriving DecidableEq, Repr

structure LimitConfig where
  maxDepth : Nat := 32
  maxJoins : Nat := 64
  verifyOutput : Bool := false
  deriving DecidableEq, Repr

structure LogConfig where
  level : String := "info"
  deriving DecidableEq, Repr

structure Config where
  flag : FlagConfig := {}
  limits : LimitConfig := {}
  log : LogConfig := {}
  deriving DecidableEq, Repr

inductive ConfigFault where
  | columnNotIdentifier (column : String)
  | emptyTable
  | blankInTable (table : String)
  | noDepth
  | noJoins
  | tablesFileMissing (path : String)
  deriving DecidableEq, Repr

def ConfigFault.message : ConfigFault → String
  | .columnNotIdentifier column =>
      "soft_delete.column is not a plain identifier: " ++ quoted column
  | .emptyTable => "soft_delete.tables contains an empty name"
  | .blankInTable table => "soft_delete.tables entry contains whitespace: " ++ quoted table
  | .noDepth => "rewrite.max_depth must be at least 1"
  | .noJoins => "rewrite.max_joins must be at least 1"
  | .tablesFileMissing path => "Tables file not found: " ++ path

inductive LoadError where
  | io
  | yaml (reason : String)
  | fault (fault : ConfigFault)
  deriving DecidableEq, Repr

def LoadError.message : LoadError → String
  | .io => "IO error"
  | .yaml reason => "YAML parse error: " ++ reason
  | .fault f => "Configuration error: " ++ f.message

namespace FlagConfig

def addTable (tables : List String) (name : String) : List String :=
  if tables.contains name then tables else tables ++ [name]

def addTables (c : FlagConfig) (extra : List String) : FlagConfig :=
  { c with tables := extra.foldl addTable c.tables }

def tableFault? (table : String) : Option ConfigFault :=
  if table.toList.all isBlank then some .emptyTable
  else if table.toList.any isBlank then some (.blankInTable table)
  else none

def fault? (c : FlagConfig) : Option ConfigFault :=
  if c.column.isEmpty || !c.column.toList.all isNamePart then some (.columnNotIdentifier c.column)
  else c.tables.findSome? tableFault?

end FlagConfig

def LimitConfig.fault? (c : LimitConfig) : Option ConfigFault :=
  if c.maxDepth = 0 then some .noDepth
  else if c.maxJoins = 0 then some .noJoins
  else none

namespace Config

def addTables (c : Config) (extra : List String) : Config :=
  { c with flag := c.flag.addTables extra }

def fault? (c : Config) : Option ConfigFault :=
  c.flag.fault? <|> c.limits.fault?

def validate (c : Config) : Except LoadError Unit :=
  match c.fault? with
  | some f => .error (.fault f)
  | none => .ok ()

end Config

def Catalog.ofConfig (c : FlagConfig) : Catalog :=
  ⟨c.tables.map String.toList⟩

def Options.ofConfig (c : Config) : Options where
  column := c.flag.column.toList
  maxDepth := c.limits.maxDepth
  maxJoins := c.limits.maxJoins
  verifyOutput := c.limits.verifyOutput

def Policy.ofConfig (c : Config) : Policy :=
  ⟨.ofConfig c.flag, .ofConfig c⟩

end SoftDelete
