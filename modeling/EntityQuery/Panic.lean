/-! Why a program stops in the middle of what it does. -/
namespace EntityQuery

inductive Panic where
  /-- A sum that leaves the range of its type. -/
  | addOverflow
  /-- A sort that meets items in an order that is none. -/
  | orderViolation
deriving DecidableEq

def Panic.message : Panic → String
  | .addOverflow => "attempt to add with overflow"
  | .orderViolation =>
    "user-provided comparison function does not correctly implement a total order"

end EntityQuery
