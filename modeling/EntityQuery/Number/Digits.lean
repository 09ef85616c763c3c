import EntityQuery.Number.Basic
/-! Decimal digits as written. -/
namespace EntityQuery.Number

def digitValue (c : Char) : Nat := c.toNat - 48

def natural (digits : List Char) : Nat :=
  digits.foldl (fun n c => 10 * n + digitValue c) 0

/-- The number of a lexeme made of a sign, digits and points: a signed 64-bit integer where there
is no point and it fits, else the nearest double. More than one point, or a number too large, is
no number. -/
def ofLexeme? (lexeme : List Char) : Option Number :=
  let negative := lexeme.head? == some '-'
  let digits := if negative then lexeme.tail else lexeme
  let whole := digits.takeWhile (· ≠ '.')
  match digits.dropWhile (· ≠ '.') with
  | [] =>
    let n : Int := if negative then -(natural whole : Int) else natural whole
    if IsLong n then some (.integer n)
    else (Double.ofDecimal? negative (natural whole) 0).map .double
  | _ :: fraction =>
    if fraction.contains '.' then none
    else (Double.ofDecimal? negative (natural (whole ++ fraction)) (-fraction.length)).map .double

end EntityQuery.Number
