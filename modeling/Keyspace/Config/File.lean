import Keyspace.Bytes
import Keyspace.Config
import Keyspace.Json.Printer

/-!
# Configuration files

`Config.load` takes the configuration from a file. Where there is no file yet it writes one with
the defaults. What stands at the path, before and after, is a value of `Place`.
-/

namespace Keyspace

/-- What stands at a path. -/
inductive Place
  /-- Nothing, in a directory that is there. -/
  | vacant
  /-- Nothing, and no directory to hold it. -/
  | unreachable
  | directory
  | file (contents : Bytes)
  deriving DecidableEq, Repr

/-- Why no configuration was loaded. -/
inductive LoadError
  /-- The file with the defaults could not be written. -/
  | unwritable
  /-- What stands at the path could not be read as text. -/
  | unreadable
  /-- The text is not a configuration. -/
  | malformed
  /-- The configuration is not valid. -/
  | invalid (fault : Config.Fault)
  deriving DecidableEq, Repr

namespace Config

/-- The text of a new configuration file. -/
def defaultText : String := (toJson {}).pretty

/-- The configuration that the text of a file gives. -/
def parse (text : String) : Except LoadError Config :=
  match (Json.read? text).bind ofJson? with
  | none => .error .malformed
  | some c =>
    match c.validate with
    | .ok _ => .ok c
    | .error f => .error (.invalid f)

/-- The configuration at a path, and what stands there afterwards. -/
def load : Place → Except LoadError (Config × Place)
  | .vacant => .ok ({}, .file (Bytes.ofString defaultText))
  | .unreachable => .error .unwritable
  | .directory => .error .unreadable
  | .file contents =>
    match contents.toString? with
    | none => .error .unreadable
    | some text => (parse text).map (·, .file contents)

end Config

end Keyspace
