import EntityQuery.Json.Value
import EntityQuery.Json.Escape
/-! Compact JSON text of values. -/
namespace EntityQuery.Value

mutual

def text : Value → String
  | .null => "null"
  | .bool b => if b then "true" else "false"
  | .number n => n.text
  | .string s => Json.quote s
  | .array items => "[" ++ itemsText items ++ "]"
  | .object members => "\x7b" ++ membersText members ++ "\x7d"

def itemsText : List Value → String
  | [] => ""
  | [v] => text v
  | v :: w :: rest => text v ++ "," ++ itemsText (w :: rest)

def membersText : List (String × Value) → String
  | [] => ""
  | [(k, v)] => Json.quote k ++ ":" ++ text v
  | (k, v) :: m :: rest => Json.quote k ++ ":" ++ text v ++ "," ++ membersText (m :: rest)

end

end EntityQuery.Value
