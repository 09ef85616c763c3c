import EntityQuery.Criteria.Predicate
import EntityQuery.Text.LowerCase
import EntityQuery.Text.Fold
/-! Criteria queries and their stepwise construction. -/
namespace EntityQuery.Criteria

inductive Direction where
  | asc | desc
deriving DecidableEq

def Direction.text : Direction → String
  | .asc => "asc"
  | .desc => "desc"

structure Order where
  expression : Expression
  direction : Direction

/-- A source: the rows of an entity under an alias. -/
structure Root where
  entity : String
  aliasName : String
deriving DecidableEq

namespace Root

def path (r : Root) : Path := ⟨r.aliasName, none⟩

def get (r : Root) (attr : String) : Path := r.path.get attr

end Root

/-- What a query answers: rows of one source, or their number. -/
inductive Selection where
  | root (aliasName : String)
  | count (aliasName : String) (distinct : Bool)
deriving DecidableEq

inductive ResultKind where
  | entity | long
deriving DecidableEq

structure Query where
  result : ResultKind
  roots : List Root := []
  selection : Option Selection := none
  restriction : Option Predicate := none
  groupBy : List Expression := []
  orders : List Order := []
  distinct : Bool := false

/-- Words that no alias is generated from, being keywords of the query language. -/
def keywords : List String := [
  "all", "and", "any", "as", "asc", "between", "by", "case", "count", "delete", "desc", "distinct",
  "else", "empty", "end", "escape", "exists", "false", "fetch", "from", "group", "having", "in",
  "inner", "is", "join", "left", "like", "member", "new", "not", "null", "of", "on", "or", "order",
  "outer", "right", "select", "set", "some", "then", "true", "union", "update", "when", "where"]

namespace Query

def hasAlias (q : Query) (aliasName : String) : Bool :=
  q.roots.any (·.aliasName == aliasName)

def addRootAs (q : Query) (entity aliasName : String) : Query × Root :=
  ({ q with roots := q.roots ++ [⟨entity, aliasName⟩] }, ⟨entity, aliasName⟩)

/-- The first of `base ++ index`, `base ++ (index + 1)`, … that is no alias of `q`, among as many
as are needed for one to be free. -/
def freeAlias (q : Query) (base : String) (index : Nat) : Nat → String
  | 0 => base ++ toString index
  | tries + 1 =>
    if q.hasAlias (base ++ toString index) then freeAlias q base (index + 1) tries
    else base ++ toString index

/-- The alias of a new source: the entity's name in lower case, with a number behind it when that
is taken or a keyword. Each alias that is taken uses up one number at most. -/
def aliasFor (q : Query) (entity : String) : String :=
  let base := Text.lower entity
  if q.hasAlias base || Text.isOneOf keywords base then
    q.freeAlias base q.roots.length q.roots.length
  else base

def addRoot (q : Query) (entity : String) : Query × Root :=
  q.addRootAs entity (q.aliasFor entity)

def select (q : Query) (s : Selection) : Query := { q with selection := some s }

def restrict (q : Query) (p : Predicate) : Query := { q with restriction := some p }

/-- Restricts `q` further, appending to a conjunction that is there. -/
def restrictAlso (q : Query) (p : Predicate) : Query :=
  q.restrict <| match q.restriction with
    | none => p
    | some (.and items) => .and (items ++ [p])
    | some other => .and [other, p]

def groupedBy (q : Query) (groups : List Expression) : Query := { q with groupBy := groups }

def orderedBy (q : Query) (orders : List Order) : Query := { q with orders }

def setDistinct (q : Query) (distinct : Bool) : Query := { q with distinct }

def expressions (q : Query) : List Expression :=
  (match q.restriction with | some p => p.expressions | none => []) ++
    q.groupBy ++ q.orders.map (·.expression)

def firstById : List Parameter → List Parameter
  | [] => []
  | p :: rest => p :: (firstById rest).filter (·.id ≠ p.id)

def parameters (q : Query) : List Parameter :=
  firstById (q.expressions.filterMap Expression.parameter?)

end Query

end EntityQuery.Criteria
