import EntityQuery.Number.Digits
/-! Written JSON numbers and the values they are read as. -/
namespace EntityQuery.Json

/-- The parts of a written number, digits without sign, point and mark. -/
structure Numeral where
  negative : Bool
  whole : List Char
  fraction : Option (List Char)
  exponent : Option Int

namespace Numeral
open Number (digitValue natural)

def significandMax : Nat := 0xffffffffffffffff

/-- Takes digits into a significand while it stays within bounds; gives the digits left over. -/
def takeDigits (significand : Nat) : List Char → Nat × List Char
  | [] => (significand, [])
  | c :: rest =>
    if 10 * significand + digitValue c ≤ significandMax then
      takeDigits (10 * significand + digitValue c) rest
    else (significand, c :: rest)

def significand (n : Numeral) : Nat × Int :=
  let (s, skipped) := takeDigits 0 n.whole
  let digits := n.fraction.getD []
  let (s, dropped) := takeDigits s digits
  (s, (skipped.length : Int) - (digits.length - dropped.length : Nat) + n.exponent.getD 0)

def powerMax : Nat := 308

/-- `d · 10 ^ power`, rounded once for each rounded power of ten it is scaled by. -/
def scale? (d : Double) (power : Int) : Option Double :=
  if d.mantissa = 0 then some d
  else if _h : power.natAbs ≤ powerMax then do
    let p ← Double.ofDecimal? false 1 power.natAbs
    if 0 ≤ power then d.mul? p else d.div? p
  else if 0 ≤ power then none
  else do
    let p ← Double.ofDecimal? false 1 powerMax
    let d ← d.div? p
    scale? d (power + powerMax)
termination_by power.natAbs
decreasing_by simp only [powerMax] at *; omega

/-- An integer where the text is one that fits 64 bits, otherwise a double; nothing when the
double is not finite. Minus zero is a double. -/
def toNumber? (n : Numeral) : Option Number :=
  let value := natural n.whole
  let integral := n.fraction.isNone && n.exponent.isNone
  if integral && !n.negative && value ≤ 0xffffffffffffffff then some (.integer value)
  else if integral && n.negative && 0 < value && value ≤ 0x8000000000000000 then
    some (.integer (-value))
  else do
    let (s, power) := n.significand
    let d ← Double.nearest? false s 1
    let d ← scale? d power
    some (.double ⟨n.negative, d.mantissa, d.exponent, d.mantissa_lt, d.exponent_mem, d.canonical⟩)

end Numeral

end EntityQuery.Json
