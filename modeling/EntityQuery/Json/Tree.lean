import EntityQuery.Reading
import EntityQuery.Json.Numeral
/-! Trees of JSON text before strings and numbers are interpreted. Members keep their order and
may repeat a key. -/
namespace EntityQuery.Json

inductive Tree where
  | null
  | bool (value : Bool)
  | number (value : Numeral)
  /-- The characters between the quotes, escapes included. -/
  | string (body : List Char)
  | array (items : List Tree)
  | object (members : List (List Char × Tree))

def isBlank (c : Char) : Bool := c == ' ' || c == '\n' || c == '\t' || c == '\r'

def skipBlank (cs : List Char) : List Char := cs.dropWhile isBlank

theorem length_dropWhile_le {α : Type} (p : α → Bool) (l : List α) :
    (l.dropWhile p).length ≤ l.length :=
  (List.dropWhile_suffix p).length_le

theorem length_skipBlank_le (cs : List Char) : (skipBlank cs).length ≤ cs.length :=
  length_dropWhile_le ..

def isHexDigit (c : Char) : Bool :=
  c.isDigit || ('a' ≤ c && c ≤ 'f') || ('A' ≤ c && c ≤ 'F')

def stringBody : List Char → Option (List Char × List Char)
  | [] => none
  | '"' :: rest => some ([], rest)
  | '\\' :: 'u' :: a :: b :: c :: d :: rest =>
    if [a, b, c, d].all isHexDigit then
      (stringBody rest).map fun (body, rest) => ('\\' :: 'u' :: a :: b :: c :: d :: body, rest)
    else none
  | '\\' :: e :: rest =>
    if ['"', '\\', '/', 'b', 'f', 'n', 'r', 't'].contains e then
      (stringBody rest).map fun (body, rest) => ('\\' :: e :: body, rest)
    else none
  | c :: rest =>
    if c.toNat < 32 then none
    else (stringBody rest).map fun (body, rest) => (c :: body, rest)

def digits? (cs : List Char) : Option (Reading (List Char) cs) :=
  match cs with
  | c :: rest =>
    if c.isDigit then
      some ⟨c :: rest.takeWhile Char.isDigit, rest.dropWhile Char.isDigit,
        Nat.lt_succ_of_le (length_dropWhile_le ..)⟩
    else none
  | [] => none

def whole? (cs : List Char) : Option (Reading (List Char) cs) :=
  match cs with
  | '0' :: c :: rest => if c.isDigit then none else some ⟨['0'], c :: rest, by simp⟩
  | cs => digits? cs

def fraction? (cs : List Char) : Option (Option (List Char) × List Char) :=
  match cs with
  | '.' :: rest => (digits? rest).map fun r => (some r.value, r.rest)
  | rest => some (none, rest)

def power? (cs : List Char) : Option (Int × List Char) :=
  match cs with
  | '-' :: rest => (digits? rest).map fun r => (-(Number.natural r.value : Int), r.rest)
  | '+' :: rest => (digits? rest).map fun r => ((Number.natural r.value : Int), r.rest)
  | rest => (digits? rest).map fun r => ((Number.natural r.value : Int), r.rest)

def exponent? (cs : List Char) : Option (Option Int × List Char) :=
  match cs with
  | 'e' :: rest | 'E' :: rest => (power? rest).map fun (n, rest) => (some n, rest)
  | rest => some (none, rest)

def numeral? (cs : List Char) : Option (Numeral × List Char) := do
  let (negative, unsigned) := match cs with
    | '-' :: rest => (true, rest)
    | rest => (false, rest)
  let whole ← whole? unsigned
  let (fraction, rest) ← fraction? whole.rest
  let (exponent, rest) ← exponent? rest
  some (⟨negative, whole.value, fraction, exponent⟩, rest)

def reading? {α : Type} {cs : List Char} (value : α) (rest : List Char) : Option (Reading α cs) :=
  if h : rest.length < cs.length then some ⟨value, rest, h⟩ else none

def afterWord? (word cs : List Char) : Option (List Char) :=
  if word.isPrefixOf cs then some (cs.drop word.length) else none

def scalar? (cs : List Char) : Option (Tree × List Char) :=
  match cs with
  | '"' :: rest => (stringBody rest).map fun (body, rest) => (.string body, rest)
  | 'n' :: rest => (afterWord? ['u', 'l', 'l'] rest).map fun rest => (.null, rest)
  | 't' :: rest => (afterWord? ['r', 'u', 'e'] rest).map fun rest => (.bool true, rest)
  | 'f' :: rest => (afterWord? ['a', 'l', 's', 'e'] rest).map fun rest => (.bool false, rest)
  | cs => (numeral? cs).map fun (n, rest) => (.number n, rest)

def key? (cs : List Char) : Option (Reading (List Char) cs) :=
  match cs with
  | '"' :: rest => do
    let (body, rest) ← stringBody rest
    match skipBlank rest with
    | ':' :: rest => reading? body rest
    | _ => none
  | _ => none

mutual

def value? (cs : List Char) : Option (Reading Tree cs) :=
  match cs with
  | '[' :: rest =>
    match _h : skipBlank rest with
    | ']' :: rest' => reading? (.array []) rest'
    | first :: rest' => do
      let r ← items? (first :: rest')
      reading? (.array r.value) r.rest
    | [] => none
  | '\x7b' :: rest =>
    match _h : skipBlank rest with
    | '\x7d' :: rest' => reading? (.object []) rest'
    | first :: rest' => do
      let r ← members? (first :: rest')
      reading? (.object r.value) r.rest
    | [] => none
  | cs => do
    let (v, rest) ← scalar? cs
    reading? v rest
termination_by (cs.length, 0)
decreasing_by
  all_goals
    apply Prod.Lex.left
    have := length_skipBlank_le rest
    simp_all only [List.length_cons]
    omega

def items? (cs : List Char) : Option (Reading (List Tree) cs) := do
  let first ← value? cs
  match _h : skipBlank first.rest with
  | ']' :: rest => reading? [first.value] rest
  | ',' :: rest =>
    let others ← items? (skipBlank rest)
    reading? (first.value :: others.value) others.rest
  | _ => none
termination_by (cs.length, 1)
decreasing_by
  · exact Prod.Lex.right _ (by omega)
  · apply Prod.Lex.left
    have h1 := length_skipBlank_le first.rest
    have h2 := length_skipBlank_le rest
    have h3 := first.shorter
    simp_all only [List.length_cons]
    omega

def members? (cs : List Char) : Option (Reading (List (List Char × Tree)) cs) := do
  let key ← key? cs
  let first ← value? (skipBlank key.rest)
  match _h : skipBlank first.rest with
  | '\x7d' :: rest => reading? [(key.value, first.value)] rest
  | ',' :: rest =>
    let others ← members? (skipBlank rest)
    reading? ((key.value, first.value) :: others.value) others.rest
  | _ => none
termination_by (cs.length, 1)
decreasing_by
  · apply Prod.Lex.left
    have h1 := length_skipBlank_le key.rest
    have h2 := key.shorter
    omega
  · apply Prod.Lex.left
    have h0 := length_skipBlank_le key.rest
    have h1 := length_skipBlank_le first.rest
    have h2 := length_skipBlank_le rest
    have h3 := first.shorter
    have h4 := key.shorter
    simp_all only [List.length_cons]
    omega

end

/-- The tree of a document: one value, with blanks around it. -/
def Tree.ofText? (text : List Char) : Option Tree := do
  let r ← value? (skipBlank text)
  if (skipBlank r.rest).isEmpty then some r.value else none

end EntityQuery.Json
