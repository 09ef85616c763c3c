import EntityQuery.Evaluation.Execute
import EntityQuery.Method
/-! Stored rows, and the queries prepared over them. -/
namespace EntityQuery
open Criteria Evaluation

/-- Rows by entity, declared graphs by name and entity, and a failure that waits for the next
query to run. -/
structure Store where
  tables : Tables := []
  graphs : List ((String × String) × List String) := []
  failure : Option String := none

namespace Store

def rowsOf (s : Store) (entity : String) : List Value :=
  (Dictionary.get? entity s.tables).getD []

def append (s : Store) (entity : String) (rows : List Value) : Store :=
  { s with tables := Dictionary.insert entity (s.rowsOf entity ++ rows) s.tables }

def register (s : Store) (entity : String) : Store := s.append entity []

def insert (s : Store) (entity : String) (row : Value) : Store := s.append entity [row]

/-- Inserts each of the rows, so without rows the entity does not become known. -/
def insertAll (s : Store) (entity : String) (rows : List Value) : Store :=
  if rows.isEmpty then s else s.append entity rows

def registerGraph (s : Store) (name entity : String) (paths : List String) : Store :=
  { s with graphs := ((name, entity), paths) :: s.graphs }

def graph? (s : Store) (name entity : String) : Option (List String) :=
  (s.graphs.find? (·.1 = (name, entity))).map (·.2)

def failNext (s : Store) (reason : String) : Store := { s with failure := some reason }

end Store

inductive Plan where
  /-- A query over the store, with its text if it was made from text, the parameters that can be
  bound by name, and the values bound. -/
  | stored (query : Query) (text : Option String) (named : List Parameter) (bindings : Bindings)
  /-- The same rows whatever is bound. -/
  | fixed (rows : List Value)

structure PreparedQuery where
  plan : Plan
  lock : Option LockMode := none
  hints : Hints := []

namespace PreparedQuery

/-- Binds a value to a parameter. The query's own declaration decides which values it takes. -/
def bind (q : PreparedQuery) (p : Parameter) (v : Value) : Except SessionError PreparedQuery :=
  match q.plan with
  | .fixed _ => .ok q
  | .stored query text named bindings =>
    match query.parameters.find? (·.id = p.id) with
    | none => .error (.unknownParameter p.label)
    | some declared =>
      if declared.type.accepts v then
        .ok { q with plan := .stored query text named ((declared.id, v) :: bindings) }
      else .error (.invalidParameterValue declared.label declared.type)

def bindNamed (q : PreparedQuery) (name : String) (v : Value) :
    Except SessionError PreparedQuery :=
  match q.plan with
  | .fixed _ => .ok q
  | .stored _ _ named _ =>
    match named.find? (·.name = some name) with
    | none => .error (.unknownParameter name)
    | some p => q.bind p v

def setLock (q : PreparedQuery) (mode : LockMode) : PreparedQuery := { q with lock := some mode }

def setHint (q : PreparedQuery) (name : String) (v : Value) : PreparedQuery :=
  { q with hints := Dictionary.insert name v q.hints }

/-- The rows a query answers. A failure that waits in the store is used up instead. -/
def rows (q : PreparedQuery) (s : Store) : Except SessionError (List Value) × Store :=
  match q.plan with
  | .fixed vs => (.ok vs, s)
  | .stored query _ _ bindings =>
    match s.failure with
    | some reason => (.error (.injected reason), { s with failure := none })
    | none => (execute s.tables query bindings, s)

def sourceText (q : PreparedQuery) : Option String :=
  match q.plan with
  | .stored _ text _ _ => text
  | .fixed _ => none

end PreparedQuery

def single : List Value → Except SessionError Value
  | [] => .error .noResult
  | [v] => .ok v
  | vs => .error (.nonUniqueResult vs.length)

end EntityQuery
