import EntityQuery.Text.Fold
import EntityQuery.Text.Visible
/-! Values in diagnostics: strings quoted, with what does not show escaped, and records, lists and
options around them. -/
namespace EntityQuery.Text

def codeEscape (c : Char) : List Char :=
  '\\' :: 'u' :: '\x7b' :: (Nat.toDigits 16 c.toNat ++ ['\x7d'])

def inspectChar (c : Char) : List Char :=
  if c = '"' then ['\\', '"']
  else if c = '\\' then ['\\', '\\']
  else if c = '\n' then ['\\', 'n']
  else if c = '\r' then ['\\', 'r']
  else if c = '\t' then ['\\', 't']
  else if c = '\x00' then ['\\', '0']
  else if isVisible c then [c]
  else codeEscape c

def inspect (s : String) : String :=
  "\"" ++ String.ofList (s.toList.flatMap inspectChar) ++ "\""

def inspectRecord (name : String) (fields : List (String × String)) : String :=
  name ++ " \x7b " ++ joinWith ", " (fields.map fun (k, v) => k ++ ": " ++ v) ++ " \x7d"

def inspectList (items : List String) : String := "[" ++ joinWith ", " items ++ "]"

def inspectCase (name argument : String) : String := name ++ "(" ++ argument ++ ")"

def inspectOption : Option String → String
  | some s => inspectCase "Some" s
  | none => "None"

def inspectBool (b : Bool) : String := if b then "true" else "false"

end EntityQuery.Text
