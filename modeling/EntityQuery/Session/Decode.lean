import EntityQuery.Session.Prepared
/-! Rows as results of a type. -/
namespace EntityQuery

abbrev Decode (α : Type) := Value → Except String α

namespace Decode

def value : Decode Value := .ok

def long : Decode Int
  | .number (.integer n) => if Number.IsLong n then .ok n else .error "integer out of range"
  | _ => .error "expected an integer"

def count : Decode (Option Int)
  | .null => .ok none
  | v => (long v).map some

def text : Decode String
  | .string s => .ok s
  | _ => .error "expected a string"

def flag : Decode Bool
  | .bool b => .ok b
  | _ => .error "expected a boolean"

/-- The named fields of an object, all of which must be there, or the items of an array of exactly
as many; gives an object of them. -/
def record (fields : List (String × Decode Value)) : Decode Value
  | .object members => do
    let entries ← fields.mapM fun (name, field) =>
      match Dictionary.get? name members with
      | some v => return (name, ← field v)
      | none => throw ("missing field " ++ name)
    return .ofEntries entries
  | .array items => do
    if items.length ≠ fields.length then throw "wrong number of items"
    let entries ← (fields.zip items).mapM fun ((name, field), v) => return (name, ← field v)
    return .ofEntries entries
  | _ => .error "expected an object"

variable {α : Type}

def rows (decode : Decode α) (vs : List Value) : Except SessionError (List α) :=
  vs.mapM fun v => (decode v).mapError .mapping

def row (decode : Decode α) (v : Value) : Except SessionError α :=
  (decode v).mapError .mapping

end Decode

end EntityQuery
