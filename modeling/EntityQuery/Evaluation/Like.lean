/-! Patterns in which `%` stands for any text and `_` for any one character. -/
namespace EntityQuery.Evaluation

def suffixes : List Char → List (List Char)
  | [] => [[]]
  | c :: rest => (c :: rest) :: suffixes rest

/-- What may be left of a text after one more character of the pattern, given what may be left
before it, the longest first. -/
def remainders (p : Char) (left : List (List Char)) : List (List Char) :=
  if p = '%' then match left with
    | [] => []
    | longest :: _ => suffixes longest
  else left.filterMap fun
    | [] => none
    | c :: rest => if p = '_' ∨ p = c then some rest else none

def like (text pattern : List Char) : Bool :=
  (pattern.foldl (fun left p => remainders p left) [text]).any List.isEmpty

end EntityQuery.Evaluation
