import EntityQuery.Number.Double
/-! The written form of a double: the fewest decimal digits that read back as it, and of those
the nearest ones. -/
namespace EntityQuery.Double

def stripZeros (c : Nat) (k : Int) : Nat × Int :=
  if h : 0 < c ∧ c % 10 = 0 then stripZeros (c / 10) (k + 1) else (c, k)
termination_by c
decreasing_by omega

/-- The decimals `c · 10 ^ k` next to `mantissa · 2 ^ exponent` on the grid `10 ^ k`, those that
round to it; the nearer one, and the even one of two equally near. -/
def onGrid? (mantissa : Nat) (exponent k : Int) : Option Nat :=
  let (num, one) := atScale 1 1 (2 - exponent)
  let (a, b) :=
    if 0 ≤ k then (Nat.pow 10 k.toNat * one, num) else (one, num * Nat.pow 10 (-k).toNat)
  -- `c · 10 ^ k` against `x` quarters of a unit in the last place: `c * a` against `x * b`
  let value := 4 * mantissa * b
  let low := (4 * mantissa - if mantissa = Nat.pow 2 52 ∧ -1074 < exponent then 1 else 2) * b
  let high := (4 * mantissa + 2) * b
  let readsBack (c : Nat) : Bool :=
    if mantissa % 2 = 0 then low ≤ c * a && c * a ≤ high else low < c * a && c * a < high
  let c := value / a
  match readsBack c, readsBack (c + 1) with
  | false, false => none
  | true, false => some c
  | false, true => some (c + 1)
  | true, true =>
    let below := value - c * a
    let above := (c + 1) * a - value
    some (if below < above ∨ (below = above ∧ c % 2 = 0) then c else c + 1)

def leadingPower (n d : Nat) : Int :=
  let x : Int := (Nat.toDigits 10 n).length - (Nat.toDigits 10 d).length
  let (p, q) := if 0 ≤ x then (n, d * Nat.pow 10 x.toNat) else (n * Nat.pow 10 (-x).toNat, d)
  if q ≤ p then x else x - 1

/-- Coefficient and power of ten of the shortest decimal that reads back as the magnitude. -/
def shortest (d : Double) : Nat × Int :=
  let x := leadingPower d.fraction.1 d.fraction.2
  let grids := (List.range 17).map fun (i : Nat) => x - i
  match grids.findSome? fun k => (onGrid? d.mantissa d.exponent k).map (·, k) with
  | some (c, k) => stripZeros c k
  | none => (0, 0)

/-- How decimals are laid out: the powers of ten of a first digit that is written positionally. -/
structure Layout where
  plainFrom : Int
  plainBelow : Int

/-- Positional notation from `0.00001` to below `10 ^ 16`, always with a fraction. -/
def layout : Layout := ⟨-5, 16⟩

def zeros (n : Int) : List Char := List.replicate n.toNat '0'

def Layout.write (l : Layout) (coefficient : Nat) (power : Int) : List Char :=
  let digits := Nat.toDigits 10 coefficient
  let first := power + digits.length - 1
  if l.plainFrom ≤ first ∧ first < l.plainBelow then
    if 0 ≤ power then digits ++ zeros power ++ ['.', '0']
    else if 0 ≤ first then
      digits.take (first + 1).toNat ++ '.' :: digits.drop (first + 1).toNat
    else '0' :: '.' :: (zeros (-first - 1) ++ digits)
  else
    digits.take 1 ++ (if digits.length = 1 then [] else '.' :: digits.drop 1) ++
      'e' :: (if first < 0 then '-' else '+') :: Nat.toDigits 10 first.natAbs

def text (d : Double) : List Char :=
  let (c, k) := d.shortest
  (if d.negative then ['-'] else []) ++
    if d.mantissa = 0 then ['0', '.', '0'] else layout.write c k

end EntityQuery.Double
