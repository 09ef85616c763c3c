import EntityQuery.Json.Escape
import EntityQuery.Text.Fold
/-! Log lines: one JSON object a line, the event first, the severity next, then the fields by key. -/
namespace EntityQuery

inductive Severity where
  | trace | info | warn | error | fatal
deriving DecidableEq

namespace Severity

def level : Severity → Nat
  | .trace => 0
  | .info => 1
  | .warn => 2
  | .error => 3
  | .fatal => 4

def text : Severity → String
  | .trace => "TRACE"
  | .info => "INFO"
  | .warn => "WARN"
  | .error => "ERROR"
  | .fatal => "FATAL"

def ofName? (name : String) : Option Severity :=
  [trace, info, warn, error, fatal].find? fun s => Text.foldCase s.text == Text.foldCase name

end Severity

inductive Event where
  | queryBuilt | countQueryBuilt | augmentationApplied | augmentationSkipped
  | findOneEmpty | countExecuted | configLoaded
deriving DecidableEq

def Event.text : Event → String
  | .queryBuilt => "QUERY_BUILT"
  | .countQueryBuilt => "COUNT_QUERY_BUILT"
  | .augmentationApplied => "AUGMENTATION_APPLIED"
  | .augmentationSkipped => "AUGMENTATION_SKIPPED"
  | .findOneEmpty => "FIND_ONE_EMPTY"
  | .countExecuted => "COUNT_EXECUTED"
  | .configLoaded => "CONFIG_LOADED"

namespace Log

def insertField (field : String × String) : List (String × String) → List (String × String)
  | [] => [field]
  | f :: rest => if field.1 < f.1 then field :: f :: rest else f :: insertField field rest

/-- The fields by key; those of one key keep their order. -/
def sortFields (fields : List (String × String)) : List (String × String) :=
  fields.foldl (fun sorted f => insertField f sorted) []

def fieldText (field : String × String) : String :=
  "," ++ Json.quote field.1 ++ ":" ++ Json.quote field.2

def line (severity : Severity) (event : String) (fields : List (String × String)) : String :=
  "\x7b\"event\":" ++ Json.quote event ++ ",\"severity\":\"" ++ severity.text ++ "\"" ++
    String.join ((sortFields fields).map fieldText) ++ "\x7d"

end Log

/-- The lines written so far, by output stream, and the severity below which none are. -/
structure Log where
  minimum : Severity := .info
  out : List String := []
  err : List String := []

namespace Log

def enabled (l : Log) (s : Severity) : Bool := l.minimum.level ≤ s.level

/-- Errors and worse go to the error stream, the rest to the output stream. -/
def write (l : Log) (s : Severity) (event : String) (fields : List (String × String)) : Log :=
  if !l.enabled s then l
  else if Severity.level .error ≤ s.level then
    { l with err := l.err ++ [line s event fields ++ "\n"] }
  else { l with out := l.out ++ [line s event fields ++ "\n"] }

end Log

end EntityQuery
