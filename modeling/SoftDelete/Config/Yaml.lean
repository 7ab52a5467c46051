import SoftDelete.Config.Load
import SoftDelete.Yaml.Decode

namespace SoftDelete

namespace Config

open Yaml.Node

def flagOf (node : Yaml.Node) : Except String FlagConfig := do
  let fs ← fields ["column", "tables", "tables_file"] node
  let absent : FlagConfig := {}
  .ok {
    column := ← field fs "column" text absent.column
    tables := ← field fs "tables" texts absent.tables
    tablesFile := ← field fs "tables_file" optionalText absent.tablesFile }

def limitsOf (node : Yaml.Node) : Except String LimitConfig := do
  let fs ← fields ["max_depth", "max_joins", "verify_output"] node
  let absent : LimitConfig := {}
  .ok {
    maxDepth := ← field fs "max_depth" natural absent.maxDepth
    maxJoins := ← field fs "max_joins" natural absent.maxJoins
    verifyOutput := ← field fs "verify_output" truth absent.verifyOutput }

def logOf (node : Yaml.Node) : Except String LogConfig := do
  let fs ← fields ["level"] node
  let absent : LogConfig := {}
  .ok { level := ← field fs "level" text absent.level }

def ofNode (node : Yaml.Node) : Except String Config := do
  let fs ← fields ["soft_delete", "rewrite", "logging"] node
  .ok {
    flag := ← field fs "soft_delete" flagOf {}
    limits := ← field fs "rewrite" limitsOf {}
    log := ← field fs "logging" logOf {} }

def Reader.yaml : Reader where
  config content := (Yaml.Node.parse content).bind ofNode
  tables content := (Yaml.Node.parse content).bind texts

def ofYaml (content : String) : Except LoadError Config :=
  (Reader.yaml.config content).mapError .yaml

def load {m : Type → Type} [Monad m] (s : Surroundings m) (path : String) :
    m (Except LoadError Config) :=
  loadWith .yaml s path

end Config

end SoftDelete
