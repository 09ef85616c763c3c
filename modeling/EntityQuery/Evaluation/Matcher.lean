import EntityQuery.Evaluation.Execute
/-! Execution that keeps the patterns it has compiled, so that it compiles each of them once. -/
namespace EntityQuery.Evaluation
open Criteria

structure Matcher where
  pattern : List Char
  fits : patternBytes pattern ≤ patternBytesMax

namespace Matcher

def ofPattern (pattern : String) : Except SessionError Matcher :=
  if h : patternBytes pattern.toList ≤ patternBytesMax then .ok ⟨pattern.toList, h⟩
  else .error (.malformedQuery (.patternTooLarge patternBytesMax))

def isMatch (m : Matcher) (text : String) : Bool := like text.toList m.pattern

end Matcher

abbrev Matchers := Dictionary Matcher

/-- A step of an execution. The patterns that it compiles are kept when it fails, too. -/
abbrev Scoped := ExceptT SessionError (StateM Matchers)

def Scoped.alone {α : Type} (x : Scoped α) : Except SessionError α := (x.run.run []).1

def likeIn (text pattern : String) : Scoped Bool := do
  match Dictionary.get? pattern (← get) with
  | some m => return m.isMatch text
  | none =>
    let m ← Matcher.ofPattern pattern
    modify (Dictionary.insert pattern m)
    return m.isMatch text

/-- Matches texts one after the other, and goes on when a pattern is too large. -/
def likesIn : List (String × String) → StateM Matchers (List (Except SessionError Bool))
  | [] => return []
  | (text, pattern) :: rest => do
    let answer ← (likeIn text pattern).run
    return answer :: (← likesIn rest)

def likeValueIn : Value → Value → Scoped Bool
  | .string text, .string pattern => likeIn text pattern
  | _, _ => return false

mutual

def satisfiesIn (b : Bindings) (c : Combination) : Predicate → Scoped Bool
  | .comparison op left right => do
    let l ← resolve b c left
    let r ← resolve b c right
    return holds op l r
  | .like e pattern => do
    let v ← resolve b c e
    let p ← resolve b c pattern
    likeValueIn v p
  | .isNull e => return (← resolve b c e).isNull
  | .isNotNull e => return !(← resolve b c e).isNull
  | .and items => satisfiesAllIn b c items
  | .or items => satisfiesAnyIn b c items
  | .not item => return !(← satisfiesIn b c item)

def satisfiesAllIn (b : Bindings) (c : Combination) : List Predicate → Scoped Bool
  | [] => return true
  | p :: rest => do
    if ← satisfiesIn b c p then satisfiesAllIn b c rest else return false

def satisfiesAnyIn (b : Bindings) (c : Combination) : List Predicate → Scoped Bool
  | [] => return false
  | p :: rest => do
    if ← satisfiesIn b c p then return true else satisfiesAnyIn b c rest

end

def satisfyingIn (b : Bindings) (p : Predicate) : List Combination → Scoped (List Combination)
  | [] => return []
  | c :: rest => do
    let keep ← satisfiesIn b c p
    let kept ← satisfyingIn b p rest
    return if keep then c :: kept else kept

def matchingIn (b : Bindings) (restriction : Option Predicate) (cs : List Combination) :
    Scoped (List Combination) :=
  match restriction with
  | none => return cs
  | some p => satisfyingIn b p cs

def executeIn (tables : Tables) (q : Query) (b : Bindings) : Scoped (List Value) := do
  validate tables q
  if let some p := q.parameters.find? fun p => (b.value? p.id).isNone then
    throw (.unboundParameter p.label)
  let cs ← combinations tables q.roots
  let cs ← matchingIn b q.restriction cs
  let cs ← sorted b q.orders cs
  (match q.selection with
  | some (.count a distinct) => do (← grouped b q.groupBy cs).mapM (countIn a distinct)
  | some (.root a) => rows cs (some a) q.distinct
  | none => rows cs none q.distinct : Except SessionError (List Value))

end EntityQuery.Evaluation
