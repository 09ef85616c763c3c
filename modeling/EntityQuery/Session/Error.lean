import EntityQuery.QueryText.Malformed
import EntityQuery.Panic
/-! Failures of creating, binding and running queries. -/
namespace EntityQuery
open Criteria

inductive SessionError where
  | noResult
  | nonUniqueResult (rows : Nat)
  | unboundParameter (name : String)
  | unknownParameter (name : String)
  | invalidParameterValue (name : String) (expected : ValueType)
  | unknownEntity (entity : String)
  | malformedQuery (cause : QueryText.Malformed)
  /-- A row that is not of the type asked for. -/
  | mapping (reason : String)
  | injected (reason : String)
  /-- No result, as the program has stopped. -/
  | panicked (cause : Panic)
deriving DecidableEq

namespace SessionError

def code : SessionError → String
  | .noResult => "NO_RESULT"
  | .nonUniqueResult _ => "NON_UNIQUE_RESULT"
  | .unboundParameter _ => "UNBOUND_PARAMETER"
  | .unknownParameter _ => "UNKNOWN_PARAMETER"
  | .invalidParameterValue _ _ => "INVALID_PARAMETER_VALUE"
  | .unknownEntity _ => "UNKNOWN_ENTITY"
  | .malformedQuery _ => "MALFORMED_QUERY"
  | .mapping _ => "MAPPING_FAILED"
  | .injected _ => "INJECTED_FAILURE"
  | .panicked _ => "panic"

def message : SessionError → String
  | .noResult => "No result found for query"
  | .nonUniqueResult n => "Query returned " ++ toString n ++ " results where one was expected"
  | .unboundParameter p => "Parameter " ++ p ++ " is not bound"
  | .unknownParameter p => "Unknown parameter: " ++ p
  | .invalidParameterValue p t =>
    "Invalid value for parameter " ++ p ++ ": expected " ++ t.text
  | .unknownEntity e => "Unknown entity: " ++ e
  | .malformedQuery cause => "Malformed query: " ++ cause.message
  | .mapping reason => "Result mapping failed: " ++ reason
  | .injected reason => "Injected failure: " ++ reason
  | .panicked cause => cause.message

end SessionError

end EntityQuery
