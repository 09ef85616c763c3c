import EntityQuery.Criteria.Predicate
/-! Comparison of values. Nothing is converted: order is between two numbers or two strings. -/
namespace EntityQuery.Evaluation
open Criteria

def order? : Value → Value → Option Ordering
  | .number a, .number b => a.compare? b
  | .string a, .string b => some (compare a b)
  | _, _ => none

/-- Whether a comparison holds. With null on either side none does. -/
def holds (op : Comparison) (left right : Value) : Bool :=
  if left.isNull || right.isNull then false
  else match op with
    | .eq => left.same right
    | .ne => !left.same right
    | .gt => order? left right == some .gt
    | .ge => order? left right == some .gt || order? left right == some .eq
    | .lt => order? left right == some .lt
    | .le => order? left right == some .lt || order? left right == some .eq

def rank : Value → Nat
  | .null => 0
  | .bool _ => 1
  | .number _ => 2
  | .string _ => 3
  | .array _ => 4
  | .object _ => 5

/-- The order in which rows are sorted: by kind first. Arrays are all alike, and so are objects. -/
def sortOrder (a b : Value) : Ordering :=
  if rank a ≠ rank b then compare (rank a) (rank b)
  else match a, b with
    | .bool x, .bool y => compare x y
    | _, _ => (order? a b).getD .eq

end EntityQuery.Evaluation
