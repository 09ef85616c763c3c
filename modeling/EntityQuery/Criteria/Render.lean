import EntityQuery.Criteria.Query
import EntityQuery.Json.Printer
/-! Query text of criteria queries. -/
namespace EntityQuery.Criteria

def quoted (s : String) : String :=
  "'" ++ String.ofList (s.toList.flatMap fun c => if c = '\'' then ['\'', '\''] else [c]) ++ "'"

def literalText : Value → String
  | .null => "null"
  | .bool b => if b then "true" else "false"
  | .number n => n.text
  | .string s => quoted s
  | v => quoted v.text

/-- The names under which text shows parameters: their own, else their place in the list. -/
def parameterNames (ps : List Parameter) : List (ParameterId × String) :=
  ps.mapIdx fun i p => (p.id, p.name.getD ("param" ++ toString i))

def nameOf (names : List (ParameterId × String)) (id : ParameterId) : String :=
  match names.find? (·.1 = id) with
  | some (_, name) => name
  | none => "param"

section
variable (names : List (ParameterId × String))

def Path.text (p : Path) : String :=
  match p.attr with
  | some a => p.aliasName ++ "." ++ a
  | none => p.aliasName

def Expression.text : Expression → String
  | .path p => p.text
  | .literal v => literalText v
  | .parameter p => ":" ++ nameOf names p.id

mutual

/-- A condition; when `nested`, in parentheses if it joins two or more. -/
def Predicate.text (nested : Bool) : Predicate → String
  | .comparison op l r => l.text names ++ " " ++ op.symbol ++ " " ++ r.text names
  | .like e p => e.text names ++ " like " ++ p.text names
  | .isNull e => e.text names ++ " is null"
  | .isNotNull e => e.text names ++ " is not null"
  | .and [] => "1 = 1"
  | .or [] => "1 = 0"
  | .and [p] => Predicate.text nested p
  | .or [p] => Predicate.text nested p
  | .and (p :: q :: rest) => wrap nested (Predicate.joined " and " (p :: q :: rest))
  | .or (p :: q :: rest) => wrap nested (Predicate.joined " or " (p :: q :: rest))
  | .not p => "not (" ++ Predicate.text false p ++ ")"
where
  wrap (nested : Bool) (s : String) : String := if nested then "(" ++ s ++ ")" else s

def Predicate.joined (separator : String) : List Predicate → String
  | [] => ""
  | [p] => Predicate.text true p
  | p :: q :: rest => Predicate.text true p ++ separator ++ Predicate.joined separator (q :: rest)

end

def Order.text (o : Order) : String := o.expression.text names ++ " " ++ o.direction.text

end

namespace Query

def distinctText (q : Query) : String := if q.distinct then "distinct " else ""

def selectionText (q : Query) : String :=
  match q.selection, q.roots with
  | some (.root a), _ => q.distinctText ++ a
  | some (.count a true), _ => "count(distinct " ++ a ++ ")"
  | some (.count a false), _ => "count(" ++ a ++ ")"
  | none, root :: _ => q.distinctText ++ root.aliasName
  | none, [] => "*"

def listText (lead : String) (items : List String) : String :=
  if items.isEmpty then "" else lead ++ Text.joinWith ", " items

/-- The query as text. Without a selection it shows its first source. -/
def text (q : Query) : String :=
  let names := parameterNames q.parameters
  "select " ++ q.selectionText ++ " from " ++
    Text.joinWith ", " (q.roots.map fun r => r.entity ++ " " ++ r.aliasName) ++
    (match q.restriction with | some p => " where " ++ p.text names false | none => "") ++
    listText " group by " (q.groupBy.map (·.text names)) ++
    listText " order by " (q.orders.map (·.text names))

end Query

end EntityQuery.Criteria
