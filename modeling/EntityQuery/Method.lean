import EntityQuery.Json.Value
import EntityQuery.Text.Blank
/-! What a query method asks for beside its rows: a lock, hints and a graph of attributes. -/
namespace EntityQuery

inductive LockMode where
  | read | write | optimistic | optimisticForceIncrement
  | pessimisticRead | pessimisticWrite | pessimisticForceIncrement | none
deriving DecidableEq

def LockMode.text : LockMode → String
  | .read => "READ"
  | .write => "WRITE"
  | .optimistic => "OPTIMISTIC"
  | .optimisticForceIncrement => "OPTIMISTIC_FORCE_INCREMENT"
  | .pessimisticRead => "PESSIMISTIC_READ"
  | .pessimisticWrite => "PESSIMISTIC_WRITE"
  | .pessimisticForceIncrement => "PESSIMISTIC_FORCE_INCREMENT"
  | .none => "NONE"

inductive GraphKind where
  | fetch | load
deriving DecidableEq

def GraphKind.hintKey : GraphKind → String
  | .fetch => "javax.persistence.fetchgraph"
  | .load => "javax.persistence.loadgraph"

/-- A graph asked for; one without a name, or with a blank one, takes the name of its method. -/
structure Graph where
  name : Option String := none
  kind : GraphKind := .fetch
  paths : List String := []
deriving DecidableEq

structure NamedGraph where
  name : String
  kind : GraphKind
  paths : List String
deriving DecidableEq

def Graph.resolve (g : Graph) (fallback : String) : NamedGraph :=
  let name := match g.name with
    | some name => if (Text.trim name.toList).isEmpty then fallback else name
    | none => fallback
  ⟨name, g.kind, g.paths⟩

abbrev Hints := Dictionary Value

structure Method where
  name : String
  lock : Option LockMode := none
  hints : Hints := []
  graph : Option Graph := none

end EntityQuery
