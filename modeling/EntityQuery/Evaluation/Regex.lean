/-! The regular expressions that patterns are translated to, and where in a text they match. -/
namespace EntityQuery.Evaluation

inductive Regex where
  /-- Nothing, at the start of the text. -/
  | start
  /-- Nothing, at the end of the text. -/
  | stop
  /-- The character itself, which is escaped where it has another meaning. -/
  | char (c : Char)
  /-- Any one character, a line break too. -/
  | any
  | many (r : Regex)
  | seq (r s : Regex)

namespace Regex

/-- The expression matches a piece of a text, between what comes before the piece and after it. -/
inductive Matches : Regex → List Char → List Char → List Char → Prop
  | start (after : List Char) : Matches .start [] [] after
  | stop (before : List Char) : Matches .stop before [] []
  | char (c : Char) (before after : List Char) : Matches (.char c) before [c] after
  | any (c : Char) (before after : List Char) : Matches .any before [c] after
  | none (r : Regex) (before after : List Char) : Matches (.many r) before [] after
  | more {r : Regex} {before piece after xs ys : List Char} (h : xs ++ ys = piece)
    (first : Matches r before xs (ys ++ after)) (rest : Matches (.many r) (before ++ xs) ys after) :
    Matches (.many r) before piece after
  | seq {r s : Regex} {before piece after xs ys : List Char} (h : xs ++ ys = piece)
    (first : Matches r before xs (ys ++ after)) (rest : Matches s (before ++ xs) ys after) :
    Matches (.seq r s) before piece after

def FoundIn (r : Regex) (text : List Char) : Prop :=
  ∃ before piece after, before ++ piece ++ after = text ∧ r.Matches before piece after

def ofChar (c : Char) : Regex :=
  if c = '%' then .many .any else if c = '_' then .any else .char c

/-- The expression for a pattern, which has to match the text from its start to its end. -/
def ofPattern (pattern : List Char) : Regex :=
  .seq .start (pattern.foldr (fun c r => .seq (ofChar c) r) .stop)

end Regex

end EntityQuery.Evaluation
