import EntityQuery.Evaluation.Combination
import EntityQuery.Evaluation.Arrange
import EntityQuery.StableSort
/-! Validation and execution of criteria queries over tables of rows. -/
namespace EntityQuery.Evaluation
open Criteria

abbrev Tables := Dictionary (List Value)

def referredAliases (q : Query) : List String :=
  (q.expressions.filterMap Expression.path?).map (·.aliasName) ++
    match q.selection with
    | some (.root a) | some (.count a _) => [a]
    | none => []

/-- A query can run when it has a source, knows all its entities, and declares all aliases that it
refers to. The first fault in this order is the failure. -/
def validate (tables : Tables) (q : Query) : Except SessionError Unit := do
  if q.roots.isEmpty then throw (.malformedQuery .noSource)
  if let some r := q.roots.find? fun r => (Dictionary.get? r.entity tables).isNone then
    throw (.unknownEntity r.entity)
  if let some a := (referredAliases q).find? fun a => !q.hasAlias a then
    throw (.malformedQuery (.unknownAlias a))

/-- All combinations of rows; those of the last source change fastest. -/
def combinations (tables : Tables) : List Root → Except SessionError (List Combination)
  | [] => .ok [[]]
  | root :: roots =>
    match Dictionary.get? root.entity tables with
    | none => .error (.unknownEntity root.entity)
    | some rows => do
      let more ← combinations tables roots
      return rows.flatMap fun v => more.map ((root, v) :: ·)

def satisfying (b : Bindings) (p : Predicate) :
    List Combination → Except SessionError (List Combination)
  | [] => .ok []
  | c :: rest => do
    let keep ← satisfies b c p
    let kept ← satisfying b p rest
    return if keep then c :: kept else kept

def matching (b : Bindings) (restriction : Option Predicate) (cs : List Combination) :
    Except SessionError (List Combination) :=
  match restriction with
  | none => .ok cs
  | some p => satisfying b p cs

/-- Whether keys come earlier under the directions: the first that differ decide. -/
def keysPrecede : List Direction → List Value → List Value → Bool
  | d :: ds, a :: as, b :: bs =>
    match sortOrder a b with
    | .eq => keysPrecede ds as bs
    | .lt => d = .asc
    | .gt => d = .desc
  | _, _, _ => false

def keyed (b : Bindings) (orders : List Order) (cs : List Combination) :
    Except SessionError (List (List Value × Combination)) :=
  cs.mapM fun c => return (← orders.mapM fun o => resolve b c o.expression, c)

def keyedPrecede (orders : List Order) (x y : List Value × Combination) : Bool :=
  keysPrecede (orders.map (·.direction)) x.1 y.1

/-- Sorts by the resolved orders; equal keys keep their order. -/
def sorted (b : Bindings) (orders : List Order) (cs : List Combination) :
    Except SessionError (List Combination) :=
  if orders.isEmpty then .ok cs
  else do
    match StableSort.sort (keyedPrecede orders) (← keyed b orders cs) with
    | some ds => return ds.map (·.2)
    | none => throw (.panicked .orderViolation)

/-- The row a combination answers: that of the source selected, else that of the first. -/
def answer (c : Combination) : Option String → Except SessionError Value
  | some a => row c a
  | none =>
    match c with
    | (_, v) :: _ => .ok v
    | [] => .error (.malformedQuery .noSource)

def rows (cs : List Combination) (aliasName : Option String) (distinct : Bool) :
    Except SessionError (List Value) := do
  let vs ← cs.mapM (answer · aliasName)
  return if distinct then firsts Value.same [] vs else vs

def countIn (aliasName : String) (distinct : Bool) (cs : List Combination) :
    Except SessionError Value := do
  let vs ← cs.mapM (row · aliasName)
  return .integer (if distinct then (firsts Value.same [] vs).length else vs.length)

/-- The combinations in groups of one key each; all in one group when there are no keys. -/
def grouped (b : Bindings) (keys : List Expression) (cs : List Combination) :
    Except SessionError (List (List Combination)) :=
  if keys.isEmpty then .ok [cs]
  else do
    let keyed ← cs.mapM fun c => return (← keys.mapM (resolve b c), c)
    return (groupBy Value.sameItems keyed).map (·.2)

/-- Answers a query: the rows of the source it selects, or one number for each group. -/
def execute (tables : Tables) (q : Query) (b : Bindings) : Except SessionError (List Value) := do
  validate tables q
  if let some p := q.parameters.find? fun p => (b.value? p.id).isNone then
    throw (.unboundParameter p.label)
  let cs ← combinations tables q.roots
  let cs ← matching b q.restriction cs
  let cs ← sorted b q.orders cs
  match q.selection with
  | some (.count a distinct) => (← grouped b q.groupBy cs).mapM (countIn a distinct)
  | some (.root a) => rows cs (some a) q.distinct
  | none => rows cs none q.distinct

end EntityQuery.Evaluation
