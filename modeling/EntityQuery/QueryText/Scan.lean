import EntityQuery.QueryText.Malformed
import EntityQuery.Number.Digits
import EntityQuery.Reading
import EntityQuery.Text.Blank
import EntityQuery.Text.Numeric
/-! Query text as tokens. -/
namespace EntityQuery.QueryText
open Criteria Text

def startsWord (c : Char) : Bool := isAlphabetic c || c == '_'

def inName (c : Char) : Bool := isAlphanumeric c || c == '_'

def inWord (c : Char) : Bool := inName c || c == '.'

def inNumber (c : Char) : Bool := c.isDigit || c == '.'

/-- A quoted literal from behind its opening quote: its text, where a doubled quote is one, and
what follows the closing quote. -/
def literalBody : List Char → Option (List Char × List Char)
  | [] => none
  | '\'' :: '\'' :: rest => (literalBody rest).map fun (s, rest) => ('\'' :: s, rest)
  | '\'' :: rest => some ([], rest)
  | c :: rest => (literalBody rest).map fun (s, rest) => (c :: s, rest)

theorem length_literalBody {cs s rest : List Char} (h : literalBody cs = some (s, rest)) :
    rest.length < cs.length := by
  fun_induction literalBody cs generalizing s with
  | case1 => simp at h
  | case2 _ ih =>
    obtain ⟨⟨b, r⟩, hb, he⟩ := Option.map_eq_some_iff.1 h
    cases he
    have := ih hb
    simp only [List.length_cons]
    omega
  | case3 => simp_all
  | case4 _ _ _ _ ih =>
    obtain ⟨⟨b, r⟩, hb, he⟩ := Option.map_eq_some_iff.1 h
    cases he
    have := ih hb
    simp only [List.length_cons]
    omega

theorem length_dropWhile_lt (p : Char → Bool) (c : Char) (cs : List Char) :
    (cs.dropWhile p).length < (c :: cs).length :=
  Nat.lt_succ_of_le (List.dropWhile_suffix p).length_le

def symbol? (c : Char) (cs : List Char) : Option (Reading Symbol (c :: cs)) :=
  match c, cs with
  | '<', '>' :: rest => some ⟨.comparison .ne, rest, by grind⟩
  | '!', '=' :: rest => some ⟨.comparison .ne, rest, by grind⟩
  | '<', '=' :: rest => some ⟨.comparison .le, rest, by grind⟩
  | '>', '=' :: rest => some ⟨.comparison .ge, rest, by grind⟩
  | '(', rest => some ⟨.opening, rest, by grind⟩
  | ')', rest => some ⟨.closing, rest, by grind⟩
  | ',', rest => some ⟨.comma, rest, by grind⟩
  | '=', rest => some ⟨.comparison .eq, rest, by grind⟩
  | '<', rest => some ⟨.comparison .lt, rest, by grind⟩
  | '>', rest => some ⟨.comparison .gt, rest, by grind⟩
  | _, _ => none

def startsNumber (c : Char) (cs : List Char) : Bool :=
  c.isDigit || (c == '-' && cs.head?.any Char.isDigit)

def tokenAt (c : Char) (cs : List Char) : Except Malformed (Reading Token (c :: cs)) :=
  if startsWord c then
    .ok ⟨.word (String.ofList (c :: cs.takeWhile inWord)), cs.dropWhile inWord,
      length_dropWhile_lt ..⟩
  else if startsNumber c cs then
    match Number.ofLexeme? (c :: cs.takeWhile inNumber) with
    | some n => .ok ⟨.number n, cs.dropWhile inNumber, length_dropWhile_lt ..⟩
    | none => .error (.invalidNumber (String.ofList (c :: cs.takeWhile inNumber)))
  else if c = '\'' then
    match h : literalBody cs with
    | some (s, rest) =>
      .ok ⟨.quoted (String.ofList s), rest, Nat.lt_succ_of_lt (length_literalBody h)⟩
    | none => .error .unterminatedString
  else if c = ':' then
    if (cs.takeWhile inName).isEmpty then .error .emptyParameterName
    else .ok ⟨.parameter (String.ofList (cs.takeWhile inName)), cs.dropWhile inName,
      length_dropWhile_lt ..⟩
  else
    match symbol? c cs with
    | some r => .ok (r.map .symbol)
    | none => .error (.unexpectedCharacter c)

def scan : List Char → Except Malformed (List Token)
  | [] => .ok []
  | c :: cs =>
    if isBlank c then scan cs
    else do
      let t ← tokenAt c cs
      let more ← scan t.rest
      return t.value :: more
termination_by cs => cs.length
decreasing_by
  · simp
  · exact t.shorter

end EntityQuery.QueryText
