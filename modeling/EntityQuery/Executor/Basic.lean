import EntityQuery.Executor.Run
import EntityQuery.Config
import EntityQuery.Criteria.Sorting
import EntityQuery.Session.Decode
import EntityQuery.Specification
/-! Executors build the find and count queries of one entity and run look-ups and counts. The only
failure they recover from is a look-up that finds no row. -/
namespace EntityQuery
open Criteria

structure Executor where
  entity : Entity
  augmentors : List Augmentor := []
  method : Option Method := none
  config : Config := {}

namespace Executor

/-- The graph that the method asks for, named after entity and method when it has no name. -/
def graph? (x : Executor) : Option NamedGraph := do
  let m ← x.method
  let g ← m.graph
  return g.resolve (x.entity.name ++ "." ++ m.name)

def hints (x : Executor) (s : Session) : Hints :=
  match x.method with
  | none => []
  | some m =>
    match x.graph? with
    | none => m.hints
    | some g => Dictionary.extend m.hints (s.provider.graphHints s.store g x.entity.type)

def withMethod (x : Executor) (s : Session) (q : PreparedQuery) : PreparedQuery :=
  match x.method with
  | none => q
  | some m =>
    let q := match m.lock with
      | some mode => q.setLock mode
      | none => q
    (x.hints s).foldl (fun q (name, v) => q.setHint name v) q

/-- Passes a query through the augmentors, unless the configuration leaves them out. -/
def augment (x : Executor) (c : CriteriaContext) : Run CriteriaContext := do
  if !x.config.augmentationEnabled then
    Run.note .augmentationSkipped [("mode", c.mode.text)]
    return c
  else
    let p := Augmentation.onCriteria x.augmentors c
    modify (·.noteApplied .criteria c.mode p.applied)
    liftExcept (p.outcome.mapError QueryError.augmentation)

def build (x : Executor) (result : ResultKind) (spec : Option Specification) (mode : QueryMode) :
    Run (Query × Root) := do
  let (q, root) := Query.addRoot { result } x.entity.type
  let (condition, q) := Specification.whenGiven spec root q
  let q := match condition with
    | some p => q.restrict p
    | none => q
  let c ← x.augment ⟨mode, q, some root, x.entity⟩
  match c.root with
  | some root => return (c.query, root)
  | none => throw (.precondition .noRoot)

def prepare (x : Executor) (event : Event) (note : Metrics → Metrics) (q : Query) :
    Run PreparedQuery := do
  if x.config.logQueries then
    Run.note event [("entity", x.entity.name), ("query", q.text)]
  Run.count note
  let s := (← get).session
  return x.withMethod s (← Run.ofSession (s.prepare q))

/-- The query for the rows that a specification describes; a sorting replaces all order. -/
def query (x : Executor) (spec : Option Specification) (sorting : Option Sorting) :
    Run PreparedQuery := do
  let (q, root) ← x.build .entity spec .find
  let q := q.select (.root root.aliasName)
  let q := match sorting with
    | some s => q.orderedBy (s.onRoot root)
    | none => q
  x.prepare .queryBuilt Metrics.noteQuery q

/-- The query for their number, of different rows when the augmented query is distinct. -/
def countQuery (x : Executor) (spec : Option Specification) (mode : QueryMode) :
    Run PreparedQuery := do
  let (q, root) ← x.build .long spec mode
  x.prepare .countQueryBuilt Metrics.noteCountQuery (q.select (.count root.aliasName q.distinct))

def addLong (m n : Int) : Except Panic Int :=
  if Number.IsLong (m + n) then .ok (m + n) else .error .addOverflow

/-- The sum of counts, where nothing counts as zero. -/
def total (counts : List (Option Int)) : Except Panic Int :=
  counts.foldlM (fun sum n => addLong sum (n.getD 0)) 0

def runCount (x : Executor) (q : PreparedQuery) : Run Int := do
  let counts ← Run.ofSession (Decode.rows Decode.count (← Run.rows q))
  let total ← liftExcept ((total counts).mapError QueryError.panicked)
  Run.count (·.addCountRows counts.length)
  Run.note .countExecuted [("entity", x.entity.name), ("rows", toString counts.length),
    ("total", toString total)]
  return total

def count (x : Executor) (spec : Option Specification) (mode : QueryMode) : Run Int := do
  x.runCount (← x.countQuery spec mode)

def idParameter (x : Executor) : Parameter := ⟨.identifier, x.entity.idType, none⟩

def byId (x : Executor) : Specification :=
  Specification.byId x.entity.idAttribute x.idParameter

def findOne {α : Type} (x : Executor) (decode : Decode α) (id : Value) : Run (Option α) := do
  let q ← x.query (some x.byId) none
  let q ← Run.ofSession (q.bind x.idParameter id)
  match single (← Run.rows q) with
  | .ok v => return some (← Run.ofSession (Decode.row decode v))
  | .error .noResult =>
    Run.note .findOneEmpty [("entity", x.entity.name)]
    Run.count Metrics.noteMiss
    return none
  | .error e => throw (.session e)

def countById (x : Executor) (id : Value) (mode : QueryMode) : Run Int := do
  let q ← x.countQuery (some x.byId) mode
  let q ← Run.ofSession (q.bind x.idParameter id)
  x.runCount q

/-- The number of rows with the identifier of a row, which may be null. -/
def countByEntity (x : Executor) (row : Value) (mode : QueryMode) : Run Int :=
  x.countById ((x.entity.idOf? row).getD .null) mode

end Executor

end EntityQuery
