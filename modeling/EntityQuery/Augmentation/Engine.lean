import EntityQuery.Augmentation.Basic
/-! Augmentors, and the passage of a query through those that support it. -/
namespace EntityQuery

structure Augmentor where
  name : String
  supports : ContextKind → QueryMode → Entity → Bool
  onCriteria : CriteriaContext → Except AugmentError CriteriaContext := .ok
  onText : Session → TextContext → Except AugmentError TextContext := fun _ c => .ok c

namespace Augmentation

structure Passage (γ : Type) where
  applied : List String
  outcome : Except AugmentError γ

/-- Threads a context through changes, each with its augmentor's name, up to the first failure. -/
def thread {γ : Type} (context : γ) :
    List (String × (γ → Except AugmentError γ)) → Passage γ
  | [] => ⟨[], .ok context⟩
  | (name, change) :: rest =>
    match change context with
    | .error e => ⟨[], .error e⟩
    | .ok context =>
      let p := thread context rest
      ⟨name :: p.applied, p.outcome⟩

def supporting (augmentors : List Augmentor) (kind : ContextKind) (mode : QueryMode)
    (entity : Entity) : List Augmentor :=
  augmentors.filter (·.supports kind mode entity)

def needed (augmentors : List Augmentor) (kind : ContextKind) (mode : QueryMode)
    (entity : Entity) : Bool :=
  !(supporting augmentors kind mode entity).isEmpty

def onCriteria (augmentors : List Augmentor) (c : CriteriaContext) : Passage CriteriaContext :=
  thread c ((supporting augmentors .criteria c.mode c.entity).map fun a => (a.name, a.onCriteria))

/-- The passage of a text query; one that is about no entity passes unchanged. -/
def onText (augmentors : List Augmentor) (s : Session) (c : TextContext) : Passage TextContext :=
  match c.entity with
  | none => ⟨[], .ok c⟩
  | some entity =>
    thread c ((supporting augmentors .string c.mode entity).map fun a => (a.name, a.onText s))

end Augmentation

end EntityQuery
