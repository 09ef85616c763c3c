import EntityQuery.Number.Shortest
/-! Numbers of rows, literals and parameters. An integer and a double are never the same number,
but they compare by size. -/
namespace EntityQuery

inductive Number where
  | integer (value : Int)
  | double (value : Double)
deriving DecidableEq

namespace Number

/-- Equality of numbers as values: kinds are kept apart, and the two double zeros are one. -/
def same : Number → Number → Bool
  | .integer a, .integer b => a == b
  | .double a, .double b => a.units == b.units
  | _, _ => false

def isInteger : Number → Bool
  | .integer _ => true
  | .double _ => false

def IsLong (n : Int) : Prop := -0x8000000000000000 ≤ n ∧ n < 0x8000000000000000

instance (n : Int) : Decidable (IsLong n) := inferInstanceAs (Decidable (_ ∧ _))

def toDouble? : Number → Option Double
  | .integer n => Double.ofInt? n
  | .double d => some d

/-- Order by size. Two signed 64-bit integers compare exactly, all else as doubles. -/
def compare? (a b : Number) : Option Ordering :=
  match a, b with
  | .integer m, .integer n =>
    if IsLong m ∧ IsLong n then some (compare m n)
    else return Double.compare (← a.toDouble?) (← b.toDouble?)
  | _, _ => return Double.compare (← a.toDouble?) (← b.toDouble?)

def text : Number → String
  | .integer n => toString n
  | .double d => String.ofList d.text

@[simp] theorem same_self (n : Number) : n.same n = true := by
  cases n <;> simp [same]

theorem same_comm (a b : Number) : a.same b = b.same a := by
  cases a <;> cases b <;> simp [same, eq_comm, Bool.beq_eq_decide_eq]

end Number

end EntityQuery
