import EntityQuery.Criteria.Query
import EntityQuery.Session.Error
import EntityQuery.Evaluation.Compare
import EntityQuery.Evaluation.Like
import EntityQuery.Evaluation.PatternSize
/-! Combinations of rows, one from each source, and what operands and conditions are on them. -/
namespace EntityQuery.Evaluation
open Criteria

/-- Values by parameter, the latest first. -/
abbrev Bindings := List (ParameterId × Value)

def Bindings.value? (b : Bindings) (id : ParameterId) : Option Value :=
  (b.find? (·.1 = id)).map (·.2)

abbrev Combination := List (Root × Value)

/-- The row under an alias, that of the first source with it. -/
def row (c : Combination) (aliasName : String) : Except SessionError Value :=
  match c.find? (·.1.aliasName = aliasName) with
  | some (_, v) => .ok v
  | none => .error (.malformedQuery (.unknownAlias aliasName))

def segments : List Char → List (List Char)
  | [] => [[]]
  | c :: rest =>
    if c = '.' then [] :: segments rest
    else match segments rest with
      | first :: more => (c :: first) :: more
      | [] => [[c]]

/-- The value that keys lead to, one object deeper each; null where one is missing. -/
def descend (v : Value) : List String → Value
  | [] => v
  | key :: rest =>
    match v.member? key with
    | some w => descend w rest
    | none => .null

def attributeValue (v : Value) (attr : String) : Value :=
  descend v ((segments attr.toList).map String.ofList)

def resolve (b : Bindings) (c : Combination) : Expression → Except SessionError Value
  | .literal v => .ok v
  | .parameter p =>
    match b.value? p.id with
    | some v => .ok v
    | none => .error (.unboundParameter p.id.text)
  | .path p => (row c p.aliasName).map fun v =>
    match p.attr with
    | some a => attributeValue v a
    | none => v

/-- Whether a value is a text that a pattern matches. A pattern that is too large is a fault, but
only when there is a text to match. -/
def likeValue : Value → Value → Except SessionError Bool
  | .string text, .string pattern =>
    if patternBytes pattern.toList ≤ patternBytesMax then .ok (like text.toList pattern.toList)
    else .error (.malformedQuery (.patternTooLarge patternBytesMax))
  | _, _ => .ok false

mutual

/-- Whether a condition holds of a combination. Conjunctions and disjunctions stop at the first
item that decides. -/
def satisfies (b : Bindings) (c : Combination) : Predicate → Except SessionError Bool
  | .comparison op left right => do
    let l ← resolve b c left
    let r ← resolve b c right
    return holds op l r
  | .like e pattern => do
    let v ← resolve b c e
    let p ← resolve b c pattern
    likeValue v p
  | .isNull e => return (← resolve b c e).isNull
  | .isNotNull e => return !(← resolve b c e).isNull
  | .and items => satisfiesAll b c items
  | .or items => satisfiesAny b c items
  | .not item => return !(← satisfies b c item)

def satisfiesAll (b : Bindings) (c : Combination) : List Predicate → Except SessionError Bool
  | [] => return true
  | p :: rest => do
    if ← satisfies b c p then satisfiesAll b c rest else return false

def satisfiesAny (b : Bindings) (c : Combination) : List Predicate → Except SessionError Bool
  | [] => return false
  | p :: rest => do
    if ← satisfies b c p then return true else satisfiesAny b c rest

end

end EntityQuery.Evaluation
