import EntityQuery.QueryText.Statement
/-! Reading statements with a register of parameters. The rules are those of statements, and an
operand that is a parameter is entered in the register when it is read: a name that is met for the
first time gets an identity from a supply, and a name that is met again the parameter it has. -/
namespace EntityQuery.QueryText
open Criteria

/-- The parameters entered so far, one for each name, the latest last. -/
abbrev Register := List Parameter

/-- Identities for new parameters, by how many there are already and by the name. -/
abbrev Supply := Nat → String → ParameterId

namespace Register

def find? (reg : Register) (name : String) : Option Parameter :=
  List.find? (·.name = some name) reg

def parameter (supply : Supply) (reg : Register) (name : String) : Parameter :=
  (reg.find? name).getD ⟨supply reg.length name, .any, some name⟩

def enter (supply : Supply) (reg : Register) (name : String) : Register :=
  if (reg.find? name).isSome then reg else reg ++ [reg.parameter supply name]

end Register

section
variable {α β γ : Type} {ts : List Token}

theorem length_lt_parameter (name : String) (rest : List Token) :
    rest.length < (Token.parameter name :: rest).length := Nat.lt_succ_self _

theorem shorter_second (r : Reading α ts) (s : Reading β r.rest) : s.rest.length < ts.length :=
  Nat.lt_trans s.shorter r.shorter

theorem shorter_third (r : Reading α ts) (s : Reading β r.rest) (t : Reading γ s.rest) :
    t.rest.length < ts.length := Nat.lt_trans t.shorter (shorter_second r s)

theorem shorter_optional (word : String) (r : Reading α ts)
    (s : Reading β (optional word r.rest).2) : s.rest.length < ts.length :=
  Nat.lt_trans (Nat.lt_of_lt_of_le s.shorter (length_optional_le ..)) r.shorter

end

abbrev Entering := StateT Register (Except Malformed)

section
variable (supply : Supply)

def enter (name : String) : Entering Parameter :=
  fun reg => .ok (reg.parameter supply name, reg.enter supply name)

def operandIn : (ts : List Token) → Entering (Reading Expression ts)
  | .parameter name :: rest => return ⟨.parameter (← enter supply name), rest, length_lt_parameter name rest⟩
  | ts => operand ts

def relationToIn (left : Expression) (ts : List Token) : Entering (Reading Predicate ts) :=
  match keyword? "is" ts with
  | some r => do
    let null ← keyword "null" (optional "not" r.rest).2
    return ⟨if (optional "not" r.rest).1 then .isNotNull left else .isNull left, null.rest,
      shorter_optional "not" r null⟩
  | none =>
  match keyword? "not" ts with
  | some r => do
    let like ← keyword "like" r.rest
    let pattern ← operandIn supply like.rest
    return ⟨.not (.like left pattern.value), pattern.rest, shorter_third r like pattern⟩
  | none =>
  match keyword? "like" ts with
  | some r => do
    let pattern ← operandIn supply r.rest
    return ⟨.like left pattern.value, pattern.rest, shorter_second r pattern⟩
  | none => do
    let op ← comparison ts
    let right ← operandIn supply op.rest
    return ⟨.comparison op.value left right.value, right.rest, shorter_second op right⟩

def relationIn (ts : List Token) : Entering (Reading Predicate ts) := do
  let left ← operandIn supply ts
  let r ← relationToIn supply left.value left.rest
  return r.after left.shorter

mutual

def disjunctsIn (ts : List Token) : Entering (Reading (List Predicate) ts) := do
  let first ← conjunctsIn ts
  match keyword? "or" first.rest with
  | none => return ⟨[joined .and first.value], first.rest, first.shorter⟩
  | some r =>
    let others ← disjunctsIn r.rest
    return ⟨joined .and first.value :: others.value, others.rest, shorter_third first r others⟩
termination_by (ts.length, 3)
decreasing_by
  · exact Prod.Lex.right _ (by omega)
  · exact Prod.Lex.left _ _ (Nat.lt_trans r.shorter first.shorter)

def conjunctsIn (ts : List Token) : Entering (Reading (List Predicate) ts) := do
  let first ← negationIn ts
  match keyword? "and" first.rest with
  | none => return ⟨[first.value], first.rest, first.shorter⟩
  | some r =>
    let others ← conjunctsIn r.rest
    return ⟨first.value :: others.value, others.rest, shorter_third first r others⟩
termination_by (ts.length, 2)
decreasing_by
  · exact Prod.Lex.right _ (by omega)
  · exact Prod.Lex.left _ _ (Nat.lt_trans r.shorter first.shorter)

def negationIn (ts : List Token) : Entering (Reading Predicate ts) :=
  match keyword? "not" ts with
  | some r => do
    let item ← negationIn r.rest
    return (item.map .not).after r.shorter
  | none =>
  match symbolAt? .opening ts with
  | some r => do
    let inner ← disjunctsIn r.rest
    let close ← closing inner.rest
    return ⟨joined .or inner.value, close.rest, shorter_third r inner close⟩
  | none => relationIn supply ts
termination_by (ts.length, 1)
decreasing_by
  · exact Prod.Lex.left _ _ r.shorter
  · exact Prod.Lex.left _ _ r.shorter

end

def conditionIn (ts : List Token) : Entering (Reading Predicate ts) := do
  let items ← disjunctsIn supply ts
  return items.map (joined .or)

def whereClauseIn (ts : List Token) : Entering (Option Predicate × List Token) :=
  match keyword? "where" ts with
  | none => return (none, ts)
  | some r => do
    let p ← conditionIn supply r.rest
    return (some p.value, p.rest)

def queryIn (ts : List Token) : Entering Query := do
  let (distinct, selection, ts) ← selectClause ts
  let afterFrom ← keyword "from" ts
  let sources ← commaList source afterFrom.rest
  if let some a := repeatedAlias? [] sources.value then throw (.duplicateAlias a)
  let (restriction, ts) ← whereClauseIn supply sources.rest
  let (groupBy, ts) ← groupClause ts
  let (orders, ts) ← orderClause ts
  if let t :: _ := ts then throw (.trailing t)
  return ⟨resultOf selection, sources.value, selection, restriction, groupBy, orders, distinct⟩

def Statement.registered (text : List Char) : Except Malformed Statement := do
  let ts ← scan text
  let (q, reg) ← (queryIn supply ts).run []
  return ⟨q, reg⟩

end

def byNameAlone : Supply := fun _ name => .named name

end EntityQuery.QueryText
