/-! Counters of query construction and execution, modulo `2 ^ 64`. -/
namespace EntityQuery

structure Metrics where
  queriesBuilt : UInt64 := 0
  countQueriesBuilt : UInt64 := 0
  augmentationsApplied : UInt64 := 0
  findOneMisses : UInt64 := 0
  countRowsSummed : UInt64 := 0
deriving DecidableEq

namespace Metrics

def noteQuery (m : Metrics) : Metrics := { m with queriesBuilt := m.queriesBuilt + 1 }

def noteCountQuery (m : Metrics) : Metrics :=
  { m with countQueriesBuilt := m.countQueriesBuilt + 1 }

def noteAugmentations (m : Metrics) (n : Nat) : Metrics :=
  { m with augmentationsApplied := m.augmentationsApplied + UInt64.ofNat n }

def noteMiss (m : Metrics) : Metrics := { m with findOneMisses := m.findOneMisses + 1 }

def addCountRows (m : Metrics) (n : Nat) : Metrics :=
  { m with countRowsSummed := m.countRowsSummed + UInt64.ofNat n }

end Metrics

end EntityQuery
