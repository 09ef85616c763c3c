import EntityQuery.Json.Value
/-! The types that parameters declare. -/
namespace EntityQuery

inductive ValueType where
  | any | bool | integer | number | string
deriving DecidableEq, Repr

namespace ValueType

def text : ValueType → String
  | .any => "any"
  | .bool => "bool"
  | .integer => "integer"
  | .number => "number"
  | .string => "string"

/-- Whether a value may be bound: null always may, and no value is converted. -/
def accepts : ValueType → Value → Bool
  | _, .null => true
  | .any, _ => true
  | .bool, .bool _ => true
  | .integer, .number n => n.isInteger
  | .number, .number _ => true
  | .string, .string _ => true
  | _, _ => false

@[simp] theorem any_accepts (v : Value) : ValueType.any.accepts v = true := by cases v <;> rfl

end ValueType

end EntityQuery
