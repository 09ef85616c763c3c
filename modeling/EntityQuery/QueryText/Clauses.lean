import EntityQuery.Text.Blank
import EntityQuery.Text.Numeric
import EntityQuery.Text.Fold
/-! Clauses of query text of any dialect, found by the keywords outside parentheses and literals,
and the addition of a source and a condition to them. -/
namespace EntityQuery.QueryText
open Text

def inClauseWord (c : Char) : Bool := isAlphanumeric c || c == '_'

/-- The words at the top level with their places, in lower case. Words inside parentheses or
literals are left out, as are those right behind a colon or a dot. The arguments before the text
say where the scan stands: the place, the parentheses open, whether inside a literal, and the
character before. -/
def topWords (pos depth : Nat) (quoted : Bool) (before : Option Char) :
    List Char → List (Nat × String)
  | [] => []
  | c :: rest =>
    if quoted then topWords (pos + 1) depth (c != '\'') (some c) rest
    else if inClauseWord c then
      let more := topWords (pos + 1) depth false (some c) rest
      if before.any inClauseWord || depth != 0 || before == some ':' || before == some '.' then more
      else (pos, foldCase (String.ofList (c :: rest.takeWhile inClauseWord))) :: more
    else
      let depth := if c = '(' then depth + 1 else if c = ')' then depth - 1 else depth
      topWords (pos + 1) depth (c == '\'') (some c) rest

structure Clauses where
  source : Option Nat := none
  condition : Option Nat := none
  /-- The first of grouping, group condition and ordering. -/
  tail : Option Nat := none
deriving DecidableEq

namespace Clauses

/-- Takes note of the word at `pos`, given the word after it. Conditions and tails count only
behind a source clause, and conditions only before a tail. -/
def note (c : Clauses) (pos : Nat) (word : String) (next : Option String) : Clauses :=
  if word = "from" then if c.source.isNone then { c with source := some pos } else c
  else if c.source.isNone || c.tail.isSome then c
  else if word = "where" then if c.condition.isNone then { c with condition := some pos } else c
  else if word = "having" then { c with tail := some pos }
  else if (word = "group" || word = "order") && next == some "by" then { c with tail := some pos }
  else c

def ofWords (c : Clauses) : List (Nat × String) → Clauses
  | [] => c
  | (pos, word) :: rest => ofWords (c.note pos word (rest.head?.map (·.2))) rest

def ofText (text : List Char) : Clauses := ofWords {} (topWords 0 0 false none text)

end Clauses

def conditionOf (c : Clauses) (text : List Char) : Option (List Char) :=
  c.condition.map fun w => trim ((text.take (c.tail.getD text.length)).drop (w + 5))

/-- The where clause for an old condition and a new one, blank if there is nothing to add. -/
def whereText (old : Option (List Char)) (new : List Char) : List Char :=
  match old with
  | none => if new.isEmpty then [] else " where ".toList ++ new
  | some old =>
    if new.isEmpty then " where ".toList ++ old
    else " where (".toList ++ old ++ ") and ".toList ++ new

/-- Adds a source behind the sources of `text` and a condition to its condition, which goes into
parentheses. Blank additions add nothing, and text without sources stays as it is. -/
def addClauses (text source condition : List Char) : List Char :=
  let c := Clauses.ofText text
  if c.source.isNone then text else
    let head := text.take ((c.condition <|> c.tail).getD text.length)
    let added := trim source
    trimEnd head ++ (if added.isEmpty then [] else ", ".toList ++ added) ++
      whereText (conditionOf c text) (trim condition) ++
      match c.tail with
      | some t => ' ' :: trim (text.drop t)
      | none => []

end EntityQuery.QueryText
