import EntityQuery.Json.Tree
import EntityQuery.Json.Value
/-! Values of JSON text. -/
namespace EntityQuery.Json

def hexValue (c : Char) : Nat :=
  if c.isDigit then c.toNat - 48 else if c.toNat < 97 then c.toNat - 55 else c.toNat - 87

def unit (a b c d : Char) : Nat :=
  ((hexValue a * 16 + hexValue b) * 16 + hexValue c) * 16 + hexValue d

def isHighSurrogate (n : Nat) : Bool := 0xD800 ≤ n && n < 0xDC00

def isLowSurrogate (n : Nat) : Bool := 0xDC00 ≤ n && n < 0xE000

def unescapeChar (e : Char) : Char :=
  if e = 'b' then '\x08' else if e = 'f' then '\x0c' else if e = 'n' then '\n'
  else if e = 'r' then '\r' else if e = 't' then '\t' else e

/-- The text of a string body; nothing when a surrogate stands alone. -/
def unescape? : List Char → Option (List Char)
  | [] => some []
  | '\\' :: 'u' :: a :: b :: c :: d :: rest =>
    let high := unit a b c d
    if isHighSurrogate high then
      match rest with
      | '\\' :: 'u' :: e :: f :: g :: h :: rest =>
        let low := unit e f g h
        if isLowSurrogate low then
          (unescape? rest).map (Char.ofNat (0x10000 + (high - 0xD800) * 0x400 + (low - 0xDC00)) :: ·)
        else none
      | _ => none
    else if isLowSurrogate high then none
    else (unescape? rest).map (Char.ofNat high :: ·)
  | '\\' :: e :: rest => (unescape? rest).map (unescapeChar e :: ·)
  | c :: rest => (unescape? rest).map (c :: ·)

mutual

def Tree.toValue? (depth : Nat) : Tree → Option Value
  | .null => some .null
  | .bool b => some (.bool b)
  | .number n => n.toNumber?.map .number
  | .string body => (unescape? body).map fun s => .string (String.ofList s)
  | .array items =>
    if depth = 0 then none else (toValues? (depth - 1) items).map .array
  | .object members =>
    if depth = 0 then none else (toMembers? (depth - 1) members).map Value.ofEntries

def Tree.toValues? (depth : Nat) : List Tree → Option (List Value)
  | [] => some []
  | s :: rest => return (← Tree.toValue? depth s) :: (← Tree.toValues? depth rest)

def Tree.toMembers? (depth : Nat) : List (List Char × Tree) → Option (List (String × Value))
  | [] => some []
  | (key, s) :: rest => do
    let k ← unescape? key
    let v ← Tree.toValue? depth s
    return (String.ofList k, v) :: (← Tree.toMembers? depth rest)

end

def depthMax : Nat := 127

end Json

def Value.ofText? (text : String) : Option Value :=
  (Json.Tree.ofText? text.toList).bind (Json.Tree.toValue? Json.depthMax)

end EntityQuery
