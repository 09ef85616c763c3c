import EntityQuery.Json.Reader
import EntityQuery.Log
/-! Settings of an executor, read from a JSON document:

    { "augmentation_enabled": true, "log_queries": false, "log_level": "info" }

Every field may be left out. -/
namespace EntityQuery

structure Config where
  /-- Whether augmentors are consulted. -/
  augmentationEnabled : Bool := true
  /-- Whether the text of queries is logged. -/
  logQueries : Bool := false
  /-- The name of the least severity that is logged. -/
  logLevel : String := "info"
deriving DecidableEq

inductive ConfigError where
  | unreadable
  | malformed
  | invalidLevel (level : String)
deriving DecidableEq

namespace ConfigError

def code : ConfigError → String
  | .unreadable => "CONFIG_READ_FAILED"
  | .malformed => "CONFIG_PARSE_FAILED"
  | .invalidLevel _ => "CONFIG_INVALID"

def message : ConfigError → String
  | .unreadable => "Failed to read config"
  | .malformed => "Invalid config JSON"
  | .invalidLevel level =>
    "Invalid config: log_level must be one of trace, info, warn, error, fatal (got '" ++ level ++
      "')"

end ConfigError

namespace Config
open Json (Tree)

def boolOf? : Tree → Option Bool
  | .bool b => some b
  | _ => none

def textOf? : Tree → Option String
  | .string body => (Json.unescape? body).map String.ofList
  | _ => none

structure Fields where
  augmentationEnabled : Option Bool := none
  logQueries : Option Bool := none
  logLevel : Option String := none

def Fields.toConfig (f : Fields) : Config where
  augmentationEnabled := f.augmentationEnabled.getD true
  logQueries := f.logQueries.getD false
  logLevel := f.logLevel.getD "info"

/-- Takes one member. A field given twice is a fault; members of other names are passed over. -/
def Fields.add? (f : Fields) (key : String) (v : Tree) : Option Fields :=
  if key = "augmentation_enabled" then
    if f.augmentationEnabled.isSome then none
    else (boolOf? v).map fun b => { f with augmentationEnabled := some b }
  else if key = "log_queries" then
    if f.logQueries.isSome then none
    else (boolOf? v).map fun b => { f with logQueries := some b }
  else if key = "log_level" then
    if f.logLevel.isSome then none
    else (textOf? v).map fun s => { f with logLevel := some s }
  else some f

def ofMembers? (f : Fields) : List (List Char × Tree) → Option Fields
  | [] => some f
  | (key, v) :: rest => do
    let key ← Json.unescape? key
    let f ← f.add? (String.ofList key) v
    ofMembers? f rest

/-- The fields in their order, of which the last may be missing. -/
def ofItems? : List Tree → Option Fields
  | [] => some {}
  | [a] => do return ⟨some (← boolOf? a), none, none⟩
  | [a, q] => do return ⟨some (← boolOf? a), some (← boolOf? q), none⟩
  | [a, q, l] => do return ⟨some (← boolOf? a), some (← boolOf? q), some (← textOf? l)⟩
  | _ => none

def ofTree? : Tree → Option Config
  | .object members => (ofMembers? {} members).map Fields.toConfig
  | .array items => (ofItems? items).map Fields.toConfig
  | _ => none

def validate (c : Config) : Except ConfigError Unit :=
  if (Severity.ofName? c.logLevel).isNone then .error (.invalidLevel c.logLevel) else .ok ()

def ofText (text : String) : Except ConfigError Config := do
  match (Tree.ofText? text.toList).bind ofTree? with
  | none => throw .malformed
  | some c =>
    c.validate
    return c

/-- The configuration in the contents of a file; nothing stands for a file that is not there. -/
def ofFile (contents : Option ByteArray) : Except ConfigError Config :=
  match contents.bind String.fromUTF8? with
  | none => .error .unreadable
  | some text => ofText text

def noteLoaded (c : Config) (path : String) (l : Log) : Log :=
  l.write .info Event.configLoaded.text [("path", path), ("log_level", c.logLevel)]

def severity (c : Config) : Severity := (Severity.ofName? c.logLevel).getD .info

def apply (c : Config) (l : Log) : Log := { l with minimum := c.severity }

def text (c : Config) : String :=
  let flag (b : Bool) : String := if b then "true" else "false"
  "\x7b\"augmentation_enabled\":" ++ flag c.augmentationEnabled ++
    ",\"log_queries\":" ++ flag c.logQueries ++ ",\"log_level\":" ++ Json.quote c.logLevel ++ "\x7d"

end Config

end EntityQuery
