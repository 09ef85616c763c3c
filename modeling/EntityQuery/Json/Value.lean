import EntityQuery.Number.Basic
import EntityQuery.Dictionary
/-! JSON values. Objects hold their members in ascending order of the keys. -/
namespace EntityQuery

inductive Value where
  | null
  | bool (value : Bool)
  | number (value : Number)
  | string (value : String)
  | array (items : List Value)
  | object (members : List (String × Value))
deriving Inhabited

namespace Value

mutual

/-- Equality of values, which is equality of numbers lifted through arrays and objects. -/
def same : Value → Value → Bool
  | .null, .null => true
  | .bool a, .bool b => a == b
  | .number a, .number b => a.same b
  | .string a, .string b => a == b
  | .array a, .array b => sameItems a b
  | .object a, .object b => sameMembers a b
  | _, _ => false

def sameItems : List Value → List Value → Bool
  | [], [] => true
  | a :: as, b :: bs => same a b && sameItems as bs
  | _, _ => false

def sameMembers : List (String × Value) → List (String × Value) → Bool
  | [], [] => true
  | (k, a) :: as, (l, b) :: bs => k == l && same a b && sameMembers as bs
  | _, _ => false

end

instance : BEq Value := ⟨same⟩

def isNull : Value → Bool
  | .null => true
  | _ => false

def member? (key : String) : Value → Option Value
  | .object members => Dictionary.get? key members
  | _ => none

def integer (n : Int) : Value := .number (.integer n)

def strings (items : List String) : Value := .array (items.map .string)

/-- An object from its entries in any order, the last of a key winning. -/
def ofEntries (entries : List (String × Value)) : Value := .object (Dictionary.ofList entries)

end Value

end EntityQuery
