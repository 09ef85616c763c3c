import EntityQuery.QueryText.Scan
import EntityQuery.Criteria.Query
/-! Statements of the query language, read from tokens:

    [select [distinct] (alias | count([distinct] alias))] from Entity [as] alias, …
    [where condition] [group by path, …] [order by path [asc | desc], …]

A condition joins relations by `or`, `and` and `not`, which bind ever tighter. -/
namespace EntityQuery.QueryText
open Criteria

abbrev Rule (α : Type) (ts : List Token) := Except Malformed (Reading α ts)

def keyword? (word : String) : (ts : List Token) → Option (Reading Unit ts)
  | t :: rest => if t.isKeyword word then some ⟨(), rest, by simp⟩ else none
  | [] => none

def symbolAt? (s : Symbol) : (ts : List Token) → Option (Reading Unit ts)
  | t :: rest => if t = .symbol s then some ⟨(), rest, by simp⟩ else none
  | [] => none

def keyword (word : String) (ts : List Token) : Rule Unit ts :=
  match keyword? word ts with
  | some r => .ok r
  | none => .error (.expected (.keyword word) ts.head?)

def closing (ts : List Token) : Rule Unit ts :=
  match symbolAt? .closing ts with
  | some r => .ok r
  | none => .error (.expected .closing ts.head?)

def optional (word : String) (ts : List Token) : Bool × List Token :=
  match keyword? word ts with
  | some r => (true, r.rest)
  | none => (false, ts)

theorem length_optional_le (word : String) (ts : List Token) :
    (optional word ts).2.length ≤ ts.length := by
  unfold optional
  split
  · exact Nat.le_of_lt (Reading.shorter _)
  · exact Nat.le_refl _

def identifier (what : Expected) : (ts : List Token) → Rule String ts
  | .word s :: rest =>
    if isReserved s then .error (.expected what (some (.word s))) else .ok ⟨s, rest, by simp⟩
  | ts => .error (.expected what ts.head?)

def commaList {α : Type} (item : (ts : List Token) → Rule α ts) (ts : List Token) :
    Rule (List α) ts := do
  let first ← item ts
  match symbolAt? .comma first.rest with
  | none => return ⟨[first.value], first.rest, first.shorter⟩
  | some comma =>
    let others ← commaList item comma.rest
    return ⟨first.value :: others.value, others.rest,
      Nat.lt_trans others.shorter (Nat.lt_trans comma.shorter first.shorter)⟩
termination_by ts.length
decreasing_by exact Nat.lt_trans comma.shorter first.shorter

/-- An alias, with an attribute from behind the first dot on. -/
def pathOf (word : String) : Path :=
  let cs := word.toList
  match cs.dropWhile (· ≠ '.') with
  | [] => ⟨word, none⟩
  | _ :: attr => ⟨String.ofList (cs.takeWhile (· ≠ '.')), some (String.ofList attr)⟩

def path (ts : List Token) : Rule Expression ts :=
  (identifier .path ts).map (·.map fun s => .path (pathOf s))

def parameterNamed (name : String) : Parameter := ⟨.named name, .any, some name⟩

def wordOperand? (word : String) : Option Expression :=
  match Text.foldCase word with
  | "true" => some (.literal (.bool true))
  | "false" => some (.literal (.bool false))
  | "null" => some (.literal .null)
  | _ => if isReserved word then none else some (.path (pathOf word))

def operandOf? : Token → Option Expression
  | .number n => some (.literal (.number n))
  | .quoted s => some (.literal (.string s))
  | .parameter name => some (.parameter (parameterNamed name))
  | .word s => wordOperand? s
  | .symbol _ => none

def operand : (ts : List Token) → Rule Expression ts
  | t :: rest =>
    match operandOf? t with
    | some e => .ok ⟨e, rest, by simp⟩
    | none => .error (.expected .operand (some t))
  | [] => .error (.expected .operand none)

def comparison : (ts : List Token) → Rule Comparison ts
  | .symbol (.comparison op) :: rest => .ok ⟨op, rest, by simp⟩
  | ts => .error (.expected .comparison ts.head?)

def relationTo (left : Expression) (ts : List Token) : Rule Predicate ts :=
  match keyword? "is" ts with
  | some r => do
    let null ← keyword "null" (optional "not" r.rest).2
    return ⟨if (optional "not" r.rest).1 then .isNotNull left else .isNull left, null.rest,
      Nat.lt_trans (Nat.lt_of_lt_of_le null.shorter (length_optional_le ..)) r.shorter⟩
  | none =>
  match keyword? "not" ts with
  | some r => do
    let like ← keyword "like" r.rest
    let pattern ← operand like.rest
    return ⟨.not (.like left pattern.value), pattern.rest,
      Nat.lt_trans pattern.shorter (Nat.lt_trans like.shorter r.shorter)⟩
  | none =>
  match keyword? "like" ts with
  | some r => do
    let pattern ← operand r.rest
    return ⟨.like left pattern.value, pattern.rest, Nat.lt_trans pattern.shorter r.shorter⟩
  | none => do
    let op ← comparison ts
    let right ← operand op.rest
    return ⟨.comparison op.value left right.value, right.rest,
      Nat.lt_trans right.shorter op.shorter⟩

def relation (ts : List Token) : Rule Predicate ts := do
  let left ← operand ts
  let r ← relationTo left.value left.rest
  return r.after left.shorter

def joined (join : List Predicate → Predicate) : List Predicate → Predicate
  | [p] => p
  | ps => join ps

mutual

def disjuncts (ts : List Token) : Rule (List Predicate) ts := do
  let first ← conjuncts ts
  match keyword? "or" first.rest with
  | none => return ⟨[joined .and first.value], first.rest, first.shorter⟩
  | some r =>
    let others ← disjuncts r.rest
    return ⟨joined .and first.value :: others.value, others.rest,
      Nat.lt_trans others.shorter (Nat.lt_trans r.shorter first.shorter)⟩
termination_by (ts.length, 3)
decreasing_by
  · exact Prod.Lex.right _ (by omega)
  · exact Prod.Lex.left _ _ (Nat.lt_trans r.shorter first.shorter)

def conjuncts (ts : List Token) : Rule (List Predicate) ts := do
  let first ← negation ts
  match keyword? "and" first.rest with
  | none => return ⟨[first.value], first.rest, first.shorter⟩
  | some r =>
    let others ← conjuncts r.rest
    return ⟨first.value :: others.value, others.rest,
      Nat.lt_trans others.shorter (Nat.lt_trans r.shorter first.shorter)⟩
termination_by (ts.length, 2)
decreasing_by
  · exact Prod.Lex.right _ (by omega)
  · exact Prod.Lex.left _ _ (Nat.lt_trans r.shorter first.shorter)

def negation (ts : List Token) : Rule Predicate ts :=
  match keyword? "not" ts with
  | some r => do
    let item ← negation r.rest
    return (item.map .not).after r.shorter
  | none =>
  match symbolAt? .opening ts with
  | some r => do
    let inner ← disjuncts r.rest
    let close ← closing inner.rest
    return ⟨joined .or inner.value, close.rest,
      Nat.lt_trans close.shorter (Nat.lt_trans inner.shorter r.shorter)⟩
  | none => relation ts
termination_by (ts.length, 1)
decreasing_by
  · exact Prod.Lex.left _ _ r.shorter
  · exact Prod.Lex.left _ _ r.shorter

end

def condition (ts : List Token) : Rule Predicate ts :=
  (disjuncts ts).map (·.map (joined .or))

def hasDot (s : String) : Bool := s.toList.contains '.'

def selection (ts : List Token) : Rule Selection ts :=
  let plain : Rule Selection ts := do
    let a ← identifier .aliasName ts
    if hasDot a.value then .error .attributeSelected else return a.map .root
  match keyword? "count" ts with
  | none => plain
  | some count =>
  match symbolAt? .opening count.rest with
  | none => plain
  | some r => do
    let a ← identifier .aliasName (optional "distinct" r.rest).2
    let close ← closing a.rest
    return ⟨.count a.value (optional "distinct" r.rest).1, close.rest,
      Nat.lt_trans close.shorter <| Nat.lt_trans
        (Nat.lt_of_lt_of_le a.shorter (length_optional_le ..)) <|
        Nat.lt_trans r.shorter count.shorter⟩

def selectClause (ts : List Token) :
    Except Malformed (Bool × Option Selection × List Token) :=
  match keyword? "select" ts with
  | none => .ok (false, none, ts)
  | some r => do
    let (distinct, rest) := optional "distinct" r.rest
    let s ← selection rest
    return (distinct, some s.value, s.rest)

/-- An entity and its alias. Any word names an entity, a reserved one too. -/
def source : (ts : List Token) → Rule Root ts
  | .word entity :: rest => do
    let a ← identifier .aliasName (optional "as" rest).2
    if hasDot a.value || hasDot entity then .error .joinInSource
    else
      return ⟨⟨entity, a.value⟩, a.rest,
        Nat.lt_succ_of_lt (Nat.lt_of_lt_of_le a.shorter (length_optional_le ..))⟩
  | ts => .error (.expected .entityName ts.head?)

def repeatedAlias? (seen : List String) : List Root → Option String
  | [] => none
  | r :: rest =>
    if seen.contains r.aliasName then some r.aliasName
    else repeatedAlias? (r.aliasName :: seen) rest

def whereClause (ts : List Token) : Except Malformed (Option Predicate × List Token) :=
  match keyword? "where" ts with
  | none => .ok (none, ts)
  | some r => do
    let p ← condition r.rest
    return (some p.value, p.rest)

def groupClause (ts : List Token) : Except Malformed (List Expression × List Token) :=
  match keyword? "group" ts with
  | none => .ok ([], ts)
  | some r => do
    let by_ ← keyword "by" r.rest
    let groups ← commaList path by_.rest
    return (groups.value, groups.rest)

/-- A path and its direction, ascending unless told otherwise. -/
def order (ts : List Token) : Rule Order ts := do
  let e ← path ts
  if (optional "desc" e.rest).1 then
    return ⟨⟨e.value, .desc⟩, (optional "desc" e.rest).2,
      Nat.lt_of_le_of_lt (length_optional_le ..) e.shorter⟩
  else
    return ⟨⟨e.value, .asc⟩, (optional "asc" e.rest).2,
      Nat.lt_of_le_of_lt (length_optional_le ..) e.shorter⟩

def orderClause (ts : List Token) : Except Malformed (List Order × List Token) :=
  match keyword? "order" ts with
  | none => .ok ([], ts)
  | some r => do
    let by_ ← keyword "by" r.rest
    let orders ← commaList order by_.rest
    return (orders.value, orders.rest)

/-- Counts are long, all other answers are entities. -/
def resultOf : Option Selection → ResultKind
  | some (.count _ _) => .long
  | _ => .entity

def query (ts : List Token) : Except Malformed Query := do
  let (distinct, selection, ts) ← selectClause ts
  let afterFrom ← keyword "from" ts
  let sources ← commaList source afterFrom.rest
  if let some a := repeatedAlias? [] sources.value then throw (.duplicateAlias a)
  let (restriction, ts) ← whereClause sources.rest
  let (groupBy, ts) ← groupClause ts
  let (orders, ts) ← orderClause ts
  if let t :: _ := ts then throw (.trailing t)
  return ⟨resultOf selection, sources.value, selection, restriction, groupBy, orders, distinct⟩

/-- A query read from text and the parameters its text writes, one for each name. -/
structure Statement where
  query : Query
  named : List Parameter

def Statement.ofText (text : List Char) : Except Malformed Statement := do
  let ts ← scan text
  let q ← QueryText.query ts
  return ⟨q, Query.firstById ((ts.filterMap Token.parameter?).map parameterNamed)⟩

end EntityQuery.QueryText
