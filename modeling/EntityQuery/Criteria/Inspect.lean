import EntityQuery.Criteria.Query
import EntityQuery.Text.Inspect
/-! Diagnostic text of criteria queries. -/
namespace EntityQuery
open Text

mutual

def Value.inspect : Value → String
  | .null => "Null"
  | .bool b => inspectCase "Bool" (inspectBool b)
  | .number n => inspectCase "Number" n.text
  | .string s => inspectCase "String" (Text.inspect s)
  | .array items => "Array " ++ inspectList (Value.inspectItems items)
  | .object members => "Object \x7b" ++ joinWith ", " (Value.inspectMembers members) ++ "\x7d"

def Value.inspectItems : List Value → List String
  | [] => []
  | v :: rest => Value.inspect v :: Value.inspectItems rest

def Value.inspectMembers : List (String × Value) → List String
  | [] => []
  | (k, v) :: rest => (Text.inspect k ++ ": " ++ Value.inspect v) :: Value.inspectMembers rest

end

namespace Criteria

def inspectType : ValueType → String
  | .any => "Any"
  | .bool => "Bool"
  | .integer => "Integer"
  | .number => "Number"
  | .string => "String"

def Expression.inspect : Expression → String
  | .path p => inspectCase "Path" <| inspectRecord "Path"
      [("alias", Text.inspect p.aliasName), ("attribute", inspectOption (p.attr.map Text.inspect))]
  | .literal v => inspectCase "Literal" v.inspect
  | .parameter p => inspectCase "Parameter" <| inspectRecord "ParameterExpression"
      [("id", p.id.text), ("value_type", inspectType p.type),
        ("name", inspectOption (p.name.map Text.inspect))]

def Comparison.inspect : Comparison → String
  | .eq => "Eq"
  | .ne => "Ne"
  | .gt => "Gt"
  | .ge => "Ge"
  | .lt => "Lt"
  | .le => "Le"

mutual

def Predicate.inspect : Predicate → String
  | .comparison op l r => inspectRecord "Comparison"
      [("op", op.inspect), ("left", l.inspect), ("right", r.inspect)]
  | .like e p => inspectRecord "Like" [("expression", e.inspect), ("pattern", p.inspect)]
  | .isNull e => inspectCase "IsNull" e.inspect
  | .isNotNull e => inspectCase "IsNotNull" e.inspect
  | .and items => inspectCase "And" (inspectList (Predicate.inspectItems items))
  | .or items => inspectCase "Or" (inspectList (Predicate.inspectItems items))
  | .not p => inspectCase "Not" (Predicate.inspect p)

def Predicate.inspectItems : List Predicate → List String
  | [] => []
  | p :: rest => Predicate.inspect p :: Predicate.inspectItems rest

end

def Root.inspect (r : Root) : String :=
  inspectRecord "Root" [("entity", Text.inspect r.entity), ("alias", Text.inspect r.aliasName)]

def Selection.inspect : Selection → String
  | .root a => inspectCase "Root" (Text.inspect a)
  | .count a distinct =>
    inspectRecord "Count" [("alias", Text.inspect a), ("distinct", inspectBool distinct)]

def Order.inspect (o : Order) : String :=
  inspectRecord "Order" [("expression", o.expression.inspect),
    ("direction", match o.direction with | .asc => "Asc" | .desc => "Desc")]

def Query.inspect (q : Query) : String :=
  inspectRecord "CriteriaQuery" [
    ("result", match q.result with | .entity => "Entity" | .long => "Long"),
    ("roots", inspectList (q.roots.map Root.inspect)),
    ("selection", inspectOption (q.selection.map Selection.inspect)),
    ("restriction", inspectOption (q.restriction.map Predicate.inspect)),
    ("group_by", inspectList (q.groupBy.map Expression.inspect)),
    ("orders", inspectList (q.orders.map Order.inspect)),
    ("distinct", inspectBool q.distinct)]

end Criteria

end EntityQuery
