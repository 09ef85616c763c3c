import EntityQuery.Criteria.Expression
/-! Conditions on a combination of rows, and the constructors that callers build them with. -/
namespace EntityQuery.Criteria

inductive Comparison where
  | eq | ne | gt | ge | lt | le
deriving DecidableEq

def Comparison.symbol : Comparison → String
  | .eq => "="
  | .ne => "<>"
  | .gt => ">"
  | .ge => ">="
  | .lt => "<"
  | .le => "<="

inductive Predicate where
  | comparison (op : Comparison) (left right : Expression)
  | like (expression pattern : Expression)
  | isNull (expression : Expression)
  | isNotNull (expression : Expression)
  | and (items : List Predicate)
  | or (items : List Predicate)
  | not (item : Predicate)

namespace Predicate

mutual

def expressions : Predicate → List Expression
  | .comparison _ left right => [left, right]
  | .like e pattern => [e, pattern]
  | .isNull e | .isNotNull e => [e]
  | .and items | .or items => expressionsOf items
  | .not item => expressions item

def expressionsOf : List Predicate → List Expression
  | [] => []
  | p :: rest => expressions p ++ expressionsOf rest

end

def conjuncts : Predicate → List Predicate
  | .and items => items
  | p => [p]

def disjuncts : Predicate → List Predicate
  | .or items => items
  | p => [p]

/-- The conjunction of `items`, whose own conjunctions are spliced in, one level deep. -/
def allOf (items : List Predicate) : Predicate := .and (items.flatMap conjuncts)

def anyOf (items : List Predicate) : Predicate := .or (items.flatMap disjuncts)

def always : Predicate := .and []

def never : Predicate := .or []

end Predicate

end EntityQuery.Criteria
