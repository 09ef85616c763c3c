import EntityQuery.Augmentation.Basic
import EntityQuery.Criteria.Inspect
/-! Diagnostic text of queries on their way through augmentation. -/
namespace EntityQuery
open Text

def QueryMode.inspect : QueryMode → String
  | .find => "Find"
  | .count => "Count"
  | .countForPaging => "CountForPaging"
  | .exists => "Exists"
  | .forDelete => "ForDelete"

def CriteriaContext.inspect (c : CriteriaContext) : String :=
  inspectRecord "CriteriaQueryContext" [("mode", c.mode.inspect), ("query", c.query.inspect),
    ("root", inspectOption (c.root.map (·.inspect))), ("entity", Text.inspect c.entity.name)]

/-- A query whose text cannot be extracted shows as none. -/
def TextContext.inspect (c : TextContext) (s : Session) : String :=
  inspectRecord "StringQueryContext" [("mode", c.mode.inspect),
    ("provider", Text.inspect s.provider.name),
    ("query", inspectOption ((c.text s).toOption.map Text.inspect))]

end EntityQuery
