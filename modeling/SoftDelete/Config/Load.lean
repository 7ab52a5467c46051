import SoftDelete.Config.Basic
import SoftDelete.Config.Path

namespace SoftDelete

inductive FileContent where
  | missing
  | unreadable
  | text (content : String)
  deriving DecidableEq, Repr

structure Surroundings (m : Type → Type) where
  file : String → m FileContent
  standardInput : m (Option String)
  setting : String → m (Option String)

namespace Config

structure Reader where
  config : String → Except String Config
  tables : String → Except String (List String)

variable {m : Type → Type} [Monad m] (r : Reader)

def readTables (s : Surroundings m) (path : String) : m (Except LoadError (List String)) := do
  match ← s.file path with
  | .missing => pure (.error (.fault (.tablesFileMissing path)))
  | .unreadable => pure (.error .io)
  | .text content => pure ((r.tables content).mapError .yaml)

def validated (c : Config) : Except LoadError Config :=
  match c.validate with
  | .ok () => .ok c
  | .error e => .error e

def loadWith (s : Surroundings m) (path : String) : m (Except LoadError Config) := do
  match ← s.file path with
  | .missing | .unreadable => pure (.error .io)
  | .text content =>
      match r.config content with
      | .error reason => pure (.error (.yaml reason))
      | .ok c =>
          match c.flag.tablesFile with
          | none => pure c.validated
          | some file =>
              let base := (Path.parent? path).getD "."
              match ← readTables r s (Path.join base file) with
              | .error e => pure (.error e)
              | .ok extra => pure (c.addTables extra).validated

end Config

end SoftDelete
