import EntityQuery.Session.Basic
import EntityQuery.Entity
import EntityQuery.QueryText.Alias
import EntityQuery.QueryText.Clauses
/-! Queries on their way through augmentation, as criteria and as text. -/
namespace EntityQuery
open Criteria

inductive QueryMode where
  | find | count | countForPaging | exists | forDelete
deriving DecidableEq

def QueryMode.text : QueryMode → String
  | .find => "FIND"
  | .count => "COUNT"
  | .countForPaging => "COUNT_FOR_PAGING"
  | .exists => "EXISTS"
  | .forDelete => "FOR_DELETE"

inductive ContextKind where
  | criteria | string
deriving DecidableEq

def ContextKind.text : ContextKind → String
  | .criteria => "criteria"
  | .string => "string"

inductive AugmentError where
  | textUnavailable
  | aliasNotDetected (text : String)
  | rejected (augmentor reason : String)
  | session (cause : SessionError)
deriving DecidableEq

namespace AugmentError

def code : AugmentError → String
  | .textUnavailable => "QUERY_TEXT_UNAVAILABLE"
  | .aliasNotDetected _ => "ALIAS_NOT_DETECTED"
  | .rejected _ _ => "AUGMENTATION_REJECTED"
  | .session cause => cause.code

def message : AugmentError → String
  | .textUnavailable => "Query text cannot be extracted from this query"
  | .aliasNotDetected text => "No alias detected in query: " ++ text
  | .rejected augmentor reason => "Augmentor " ++ augmentor ++ " rejected query: " ++ reason
  | .session cause => cause.message

end AugmentError

/-- A criteria query and the root that its result is about. An augmentor may drop the root. -/
structure CriteriaContext where
  mode : QueryMode
  query : Query
  root : Option Root
  entity : Entity

structure TextContext where
  mode : QueryMode
  query : PreparedQuery
  entity : Option Entity

namespace TextContext

def text (c : TextContext) (s : Session) : Except AugmentError String :=
  if !s.provider.canExtract then .error .textUnavailable
  else match s.provider.textOf c.query with
    | some text => .ok text
    | none => .error .textUnavailable

/-- `cs` with `word` in place of each `{alias}`. -/
def fillAlias (word : List Char) : List Char → List Char
  | '\x7b' :: 'a' :: 'l' :: 'i' :: 'a' :: 's' :: '\x7d' :: rest => word ++ fillAlias word rest
  | c :: rest => c :: fillAlias word rest
  | [] => []

def bindAll (q : PreparedQuery) : List (String × Value) → Except SessionError PreparedQuery
  | [] => .ok q
  | (name, v) :: rest => do
    let q ← q.bindNamed name v
    bindAll q rest

/-- A new query whose text has one more source and one more condition, with `parameters` bound.
Of the old query only the text is kept. -/
def augment (c : TextContext) (s : Session) (source condition : String)
    (parameters : Dictionary Value) : Except AugmentError TextContext := do
  let text ← c.text s
  match QueryText.detectAlias? text.toList with
  | none => throw (.aliasNotDetected text)
  | some a =>
    let new := QueryText.addClauses text.toList source.toList (fillAlias a condition.toList)
    let query ← (s.prepareText (String.ofList new)).mapError .session
    let query ← (bindAll query parameters).mapError .session
    return { c with query }

end TextContext

end EntityQuery
