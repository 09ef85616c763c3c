import EntityQuery.Executor.Observed
/-! Operations on an observed session, and how they fail. -/
namespace EntityQuery

inductive Precondition where
  | noRoot
  | described (reason : String)
deriving DecidableEq

def Precondition.text : Precondition → String
  | .noRoot => "context has no root"
  | .described reason => reason

inductive QueryError where
  | precondition (violated : Precondition)
  | session (cause : SessionError)
  | augmentation (cause : AugmentError)
  /-- No result, as the program has stopped outside of the session. -/
  | panicked (cause : Panic)
deriving DecidableEq

namespace QueryError

def code : QueryError → String
  | .precondition _ => "PRECONDITION_VIOLATED"
  | .session cause => cause.code
  | .augmentation cause => cause.code
  | .panicked _ => "panic"

def message : QueryError → String
  | .precondition p => "Precondition violated: " ++ p.text
  | .session cause => cause.message
  | .augmentation cause => cause.message
  | .panicked cause => cause.message

def isNoResult : QueryError → Bool
  | .session .noResult => true
  | _ => false

end QueryError

/-- Operations on an observed session. What was counted and logged before a failure stays so. -/
abbrev Run := ExceptT QueryError (StateM ObservedSession)

namespace Run

def note (event : Event) (fields : List (String × String)) : Run Unit :=
  modify (·.trace event fields)

def count (f : Metrics → Metrics) : Run Unit :=
  modify fun o => { o with metrics := f o.metrics }

def ofSession {α : Type} (x : Except SessionError α) : Run α :=
  liftExcept (x.mapError QueryError.session)

def rows (q : PreparedQuery) : Run (List Value) := do
  let (result, store) := q.rows (← get).session.store
  modify fun o => { o with session := { o.session with store } }
  ofSession result

end Run

end EntityQuery
