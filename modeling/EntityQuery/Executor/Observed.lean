import EntityQuery.Augmentation.Engine
import EntityQuery.Metrics
import EntityQuery.Log
/-! Sessions with counters and a log. -/
namespace EntityQuery

structure ObservedSession where
  session : Session := {}
  metrics : Metrics := {}
  log : Log := {}

namespace ObservedSession

def trace (o : ObservedSession) (event : Event) (fields : List (String × String)) :
    ObservedSession :=
  { o with log := o.log.write .trace event.text fields }

def noteApplied (o : ObservedSession) (kind : ContextKind) (mode : QueryMode)
    (names : List String) : ObservedSession :=
  let o := names.foldl (fun o name => o.trace .augmentationApplied
    [("augmentor", name), ("context", kind.text), ("mode", mode.text)]) o
  { o with metrics := o.metrics.noteAugmentations names.length }

end ObservedSession

end EntityQuery
