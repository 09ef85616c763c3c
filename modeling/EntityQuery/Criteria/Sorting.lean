import EntityQuery.Criteria.Query
/-! Sort orders by property, apart from any query. -/
namespace EntityQuery.Criteria

structure SortOrder where
  property : String
  direction : Direction
deriving DecidableEq

structure Sorting where
  orders : List SortOrder
deriving DecidableEq

namespace Sorting

def unsorted : Sorting := ⟨[]⟩

def byProperties (properties : List String) : Sorting := ⟨properties.map (⟨·, .asc⟩)⟩

def append (s t : Sorting) : Sorting := ⟨s.orders ++ t.orders⟩

def descending (s : Sorting) : Sorting := ⟨s.orders.map fun o => { o with direction := .desc }⟩

def isSorted (s : Sorting) : Bool := !s.orders.isEmpty

def onRoot (s : Sorting) (root : Root) : List Order :=
  s.orders.map fun o => ⟨.path (root.get o.property), o.direction⟩

end Sorting

end EntityQuery.Criteria
