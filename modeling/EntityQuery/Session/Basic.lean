import EntityQuery.Session.Prepared
import EntityQuery.QueryText.Statement
import EntityQuery.Criteria.Render
/-! Sessions: a store, what prepares queries over it, and what reports their text. -/
namespace EntityQuery
open Criteria Evaluation

inductive Provider where
  | memory
  /-- Gives the same answers for all queries and graphs. -/
  | fixed (canExtract : Bool) (text : Option String) (hints : Hints)

structure Session where
  store : Store := {}
  provider : Provider := .memory
  /-- When given, all queries answer these rows, and none is checked. -/
  answers : Option (List Value) := none

namespace Provider

def name : Provider → String
  | .memory => "memory"
  | .fixed _ _ _ => "fixed"

def canExtract : Provider → Bool
  | .memory => true
  | .fixed can _ _ => can

/-- The text of a query: the one it was made from, else the rendering of its criteria. -/
def textOf (p : Provider) (q : PreparedQuery) : Option String :=
  match p, q.plan with
  | .fixed _ text _, _ => text
  | .memory, .stored query text _ _ => some (text.getD query.text)
  | .memory, .fixed _ => none

/-- The hints that make a query fetch a graph. A graph declared for the entity goes before the
paths of the one asked for; without paths there is nothing to hint. -/
def graphHints (p : Provider) (s : Store) (g : NamedGraph) (entity : String) : Hints :=
  match p with
  | .fixed _ _ hints => hints
  | .memory =>
    let hint (paths : List String) : Hints :=
      [(g.kind.hintKey, .ofEntries
        [("name", .string g.name), ("entity", .string entity), ("attributes", .strings paths)])]
    match s.graph? g.name entity with
    | some paths => hint paths
    | none => if g.paths.isEmpty then [] else hint g.paths

end Provider

namespace Session

def prepare (s : Session) (q : Query) : Except SessionError PreparedQuery :=
  match s.answers with
  | some rows => .ok ⟨.fixed rows, none, []⟩
  | none => do
    validate s.store.tables q
    return ⟨.stored q none [] [], none, []⟩

def prepareText (s : Session) (text : String) : Except SessionError PreparedQuery :=
  match s.answers with
  | some rows => .ok ⟨.fixed rows, none, []⟩
  | none =>
    match QueryText.Statement.ofText text.toList with
    | .error cause => .error (.malformedQuery cause)
    | .ok statement => do
      validate s.store.tables statement.query
      return ⟨.stored statement.query (some text) statement.named [], none, []⟩

end Session

end EntityQuery
