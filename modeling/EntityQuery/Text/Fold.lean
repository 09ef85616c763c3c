/-! Lower-casing of the ASCII letters, under which keywords and names of levels are compared. -/
namespace EntityQuery.Text

def foldCase (s : String) : String := String.ofList (s.toList.map Char.toLower)

def isOneOf (words : List String) (word : String) : Bool := words.contains (foldCase word)

def joinWith (separator : String) : List String → String
  | [] => ""
  | [s] => s
  | s :: t :: rest => s ++ separator ++ joinWith separator (t :: rest)

end EntityQuery.Text
