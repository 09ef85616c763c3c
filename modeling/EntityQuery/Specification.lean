import EntityQuery.Criteria.Query
/-! Specifications: conditions that are made for the root of a query, which they may extend. -/
namespace EntityQuery
open Criteria

/-- Given the root of the query under construction, changes the query and may give a condition. -/
def Specification := Root → Query → Option Predicate × Query

namespace Specification

def unrestricted : Specification := fun _ q => (none, q)

/-- Joins the conditions of both sides; a side without one leaves the other. -/
def junction (join : List Predicate → Predicate) (left right : Specification) : Specification :=
  fun root q =>
    let (l, q) := left root q
    let (r, q) := right root q
    match l, r with
    | some l, some r => (some (join [l, r]), q)
    | some p, none | none, some p => (some p, q)
    | none, none => (none, q)

def and (left right : Specification) : Specification := junction Predicate.allOf left right

def or (left right : Specification) : Specification := junction Predicate.anyOf left right

def not (s : Specification) : Specification := fun root q =>
  let (p, q) := s root q
  (p.map .not, q)

def whenGiven (s : Option Specification) : Specification := s.getD unrestricted

def byId (idAttribute : String) (parameter : Parameter) : Specification := fun root q =>
  (some (.comparison .eq (.path (root.get idAttribute)) (.parameter parameter)), q)

end Specification

end EntityQuery
