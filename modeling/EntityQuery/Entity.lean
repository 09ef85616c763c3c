import EntityQuery.Criteria.ValueType
import EntityQuery.Text.Inspect
/-! What is known of an entity apart from its rows. -/
namespace EntityQuery

structure Entity where
  name : String
  /-- The name under which rows are stored. -/
  type : String
  idAttribute : String
  idType : ValueType
deriving DecidableEq

namespace Entity

def ofName (name idAttribute : String) (idType : ValueType) : Entity :=
  ⟨name, name, idAttribute, idType⟩

/-- The identifier of a row: the member of that very name, unless it is null. -/
def idOf? (e : Entity) (row : Value) : Option Value :=
  (row.member? e.idAttribute).filter fun v => !v.isNull

def inspect (e : Entity) : String :=
  Text.inspectRecord "EntityMetadata" [("entity_name", Text.inspect e.name),
    ("entity_type", Text.inspect e.type), ("id_attribute", Text.inspect e.idAttribute)]

end Entity

end EntityQuery
