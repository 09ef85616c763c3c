import EntityQuery.Text.Blank
import EntityQuery.Text.Fold
import EntityQuery.Text.WordChar
/-! The alias of the first source, found in query text of any dialect. -/
namespace EntityQuery.QueryText
open Text

/-- Words that follow a source and are no alias of it. -/
def notAliases : List String := [
  "where", "group", "order", "having", "join", "left", "right", "inner", "outer", "fetch", "on",
  "set", "union"]

/-- Whether `c` is the lower-case letter `l`, case aside; the long s is an `s`. -/
def isLetter (l c : Char) : Bool := c.toLower == l || (l == 's' && c == 'ſ')

def afterLetters? : List Char → List Char → Option (List Char)
  | [], cs => some cs
  | _ :: _, [] => none
  | l :: letters, c :: cs => if isLetter l c then afterLetters? letters cs else none

def afterRun? (p : Char → Bool) (cs : List Char) : Option (List Char) :=
  if (cs.takeWhile p).isEmpty then none else some (cs.dropWhile p)

def blankWord? (cs : List Char) : Option (List Char) := do
  let cs ← afterRun? isBlank cs
  let word := cs.takeWhile isWordChar
  if word.isEmpty then none else some word

def afterAs? (cs : List Char) : Option (List Char) := do
  let cs ← afterRun? isBlank cs
  let rest ← afterLetters? ['a', 's'] cs
  if rest.head?.any isWordChar then none else some rest

def inEntityName (c : Char) : Bool := isWordChar c || c == '.' || c == '$'

/-- The alias in `from Entity [as] alias` at the front of `cs`. When no word follows an `as`, the
`as` is the alias. -/
def aliasAt? (cs : List Char) : Option (List Char) := do
  let cs ← afterLetters? ['f', 'r', 'o', 'm'] cs
  let cs ← afterRun? isBlank cs
  let cs ← afterRun? inEntityName cs
  ((afterAs? cs).bind blankWord?).or (blankWord? cs)

/-- The alias of the first place, not inside a word, where a source is written. -/
def firstAlias? (before : Option Char) : List Char → Option (List Char)
  | [] => none
  | c :: rest =>
    if before.any isWordChar then firstAlias? (some c) rest
    else (aliasAt? (c :: rest)).or (firstAlias? (some c) rest)

/-- The alias of the first source of `text`, unless what stands in its place is a keyword. -/
def detectAlias? (text : List Char) : Option (List Char) :=
  (firstAlias? none text).filter fun a => !isOneOf notAliases (String.ofList a)

end EntityQuery.QueryText
