/-! Finite binary64 numbers as exact values, and rounding to them, ties to even. -/
namespace EntityQuery

/-- `± mantissa · 2 ^ exponent` in its one normal form; the two zeros differ in the sign only. -/
structure Double where
  negative : Bool
  mantissa : Nat
  exponent : Int
  mantissa_lt : mantissa < Nat.pow 2 53
  exponent_mem : -1074 ≤ exponent ∧ exponent ≤ 971
  canonical : Nat.pow 2 52 ≤ mantissa ∨ exponent = -1074
deriving DecidableEq

namespace Double

def ofParts? (negative : Bool) (mantissa : Nat) (exponent : Int) : Option Double :=
  if h : mantissa < Nat.pow 2 53 ∧ (-1074 ≤ exponent ∧ exponent ≤ 971) ∧
      (Nat.pow 2 52 ≤ mantissa ∨ exponent = -1074) then
    some ⟨negative, mantissa, exponent, h.1, h.2.1, h.2.2⟩
  else none

def zero (negative : Bool) : Double :=
  ⟨negative, 0, -1074, by decide, by decide, .inr rfl⟩

/-- The value, counted in multiples of the least positive number `2 ^ -1074`. -/
def units (d : Double) : Int :=
  let n : Int := d.mantissa * Nat.pow 2 (d.exponent + 1074).toNat
  if d.negative then -n else n

/-- Numbers compare as the rationals they denote, so the two zeros are equal. -/
def compare (a b : Double) : Ordering := Ord.compare a.units b.units

def atScale (n d : Nat) (e : Int) : Nat × Nat :=
  if 0 ≤ e then (n, d * Nat.pow 2 e.toNat) else (n * Nat.pow 2 (-e).toNat, d)

/-- The integer nearest to `n / d`; of two, the even one. -/
def roundDiv (n d : Nat) : Nat :=
  if 2 * (n % d) < d ∨ (2 * (n % d) = d ∧ n / d % 2 = 0) then n / d else n / d + 1

/-- The exponent under which the value `n / d` has at most 53 binary digits before the point,
and 53 of them when the range allows. -/
def exponentFor (n d : Nat) : Int :=
  let e : Int := max ((n.log2 : Int) - d.log2 - 53) (-1074)
  let (p, q) := atScale n d e
  if p / q < Nat.pow 2 53 then e else e + 1

/-- The number nearest to `n / d`; nothing when it is too large to be finite. -/
def nearest? (negative : Bool) (n d : Nat) : Option Double :=
  if n = 0 then some (zero negative) else
    let e := exponentFor n d
    let (p, q) := atScale n d e
    let m := roundDiv p q
    if m = Nat.pow 2 53 then ofParts? negative (Nat.pow 2 52) (e + 1) else ofParts? negative m e

def ofInt? (n : Int) : Option Double := nearest? (n < 0) n.natAbs 1

def ofDecimal? (negative : Bool) (coefficient : Nat) (exponent : Int) : Option Double :=
  if 0 ≤ exponent then nearest? negative (coefficient * Nat.pow 10 exponent.toNat) 1
  else nearest? negative coefficient (Nat.pow 10 (-exponent).toNat)

def fraction (d : Double) : Nat × Nat :=
  if 0 ≤ d.exponent then (d.mantissa * Nat.pow 2 d.exponent.toNat, 1)
  else (d.mantissa, Nat.pow 2 (-d.exponent).toNat)

def mul? (a b : Double) : Option Double :=
  let (n, d) := a.fraction
  let (p, q) := b.fraction
  nearest? (a.negative != b.negative) (n * p) (d * q)

def div? (a b : Double) : Option Double :=
  let (n, d) := a.fraction
  let (p, q) := b.fraction
  if p = 0 then none else nearest? (a.negative != b.negative) (n * q) (d * p)

end Double

end EntityQuery
