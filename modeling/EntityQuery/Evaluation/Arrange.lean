/-! The removal of repeats, and grouping, for relations given as functions. -/
namespace EntityQuery.Evaluation
variable {α β : Type}

/-- The first of the items that are the same, given those already `seen`. -/
def firsts (same : α → α → Bool) (seen : List α) : List α → List α
  | [] => []
  | x :: rest =>
    if seen.any (same · x) then firsts same seen rest else x :: firsts same (x :: seen) rest

/-- Puts an item into the first group that has its key, or into a group of its own behind them. -/
def enter (same : β → β → Bool) (groups : List (β × List α)) (x : β × α) : List (β × List α) :=
  match groups with
  | [] => [(x.1, [x.2])]
  | g :: rest => if same g.1 x.1 then (g.1, g.2 ++ [x.2]) :: rest else g :: enter same rest x

def groupBy (same : β → β → Bool) (xs : List (β × α)) : List (β × List α) :=
  xs.foldl (enter same) []

end EntityQuery.Evaluation
