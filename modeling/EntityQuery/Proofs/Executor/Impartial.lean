import Mathlib
import EntityQuery.Executor.Basic
import EntityQuery.Proofs.Outcome
/-! Specifications and augmentors that make the same of a query whatever it is run for. -/
namespace EntityQuery
open Criteria

namespace Criteria.Query

def withResult (q : Query) (result : ResultKind) : Query := { q with result }

section
variable (q : Query) (result : ResultKind) (entity : String)

theorem freeAlias_withResult (base : String) (index tries : Nat) :
    (q.withResult result).freeAlias base index tries = q.freeAlias base index tries := by
  induction tries generalizing index with
  | zero => rfl
  | succ tries ih =>
    rw [freeAlias, freeAlias, ih]
    rfl

theorem addRoot_withResult :
    (q.withResult result).addRoot entity =
      ((q.addRoot entity).1.withResult result, (q.addRoot entity).2) := by
  have halias : (q.withResult result).aliasFor entity = q.aliasFor entity := by
    unfold aliasFor
    dsimp only
    rw [freeAlias_withResult]
    rfl
  rw [addRoot, halias]
  rfl

end

end Criteria.Query

namespace Specification

inductive Change where
  | source (entity : String)
  | distinct (flag : Bool)

def Change.apply (q : Query) : Change → Query
  | .source entity => (q.addRoot entity).1
  | .distinct flag => q.setDistinct flag

def leaf (changes : List Change) (condition : Root → List Root → Option Predicate) :
    Specification := fun root q =>
  let q := changes.foldl Change.apply q
  (condition root q.roots, q)

/-- Specifications that are put together from leaves. -/
inductive Composed : Specification → Prop
  | leaf (changes : List Change) (condition : Root → List Root → Option Predicate) :
    Composed (leaf changes condition)
  | and {s t : Specification} (hs : Composed s) (ht : Composed t) : Composed (s.and t)
  | or {s t : Specification} (hs : Composed s) (ht : Composed t) : Composed (s.or t)
  | not {s : Specification} (hs : Composed s) : Composed s.not
  | given {s : Specification} (hs : Composed s) : Composed (whenGiven (some s))
  | absent : Composed (whenGiven none)

/-- What the query is to answer makes no difference to the specification. -/
def Blind (s : Specification) : Prop :=
  ∀ root q result, s root (q.withResult result) = ((s root q).1, (s root q).2.withResult result)

theorem blind_leaf (changes : List Change) (condition : Root → List Root → Option Predicate) :
    Blind (leaf changes condition) := by
  have hchanges : ∀ q result, changes.foldl Change.apply (q.withResult result) =
      (changes.foldl Change.apply q).withResult result := by
    induction changes with
    | nil => exact fun q result => rfl
    | cons c changes ih =>
      intro q result
      have hc : Change.apply (q.withResult result) c = (Change.apply q c).withResult result := by
        cases c with
        | source entity => exact congrArg Prod.fst (q.addRoot_withResult result entity)
        | distinct flag => rfl
      rw [List.foldl_cons, List.foldl_cons, hc, ih]
  intro root q result
  unfold leaf
  dsimp only
  rw [hchanges]
  rfl

theorem blind_junction (join : List Predicate → Predicate) {s t : Specification} (hs : Blind s)
    (ht : Blind t) : Blind (junction join s t) := by
  intro root q result
  unfold junction
  rw [hs root q result]
  dsimp only
  rw [ht root (s root q).2 result]
  dsimp only
  cases (s root q).1 <;> cases (t root (s root q).2).1 <;> rfl

theorem Composed.blind {s : Specification} (h : Composed s) : Blind s := by
  induction h with
  | leaf changes condition => exact blind_leaf changes condition
  | and _ _ hs ht => exact blind_junction Predicate.allOf hs ht
  | or _ _ hs ht => exact blind_junction Predicate.anyOf hs ht
  | not _ hs =>
    intro root q result
    unfold Specification.not
    rw [hs root q result]
  | given _ hs => exact hs
  | absent => exact fun root q result => rfl

end Specification

def CriteriaContext.runFor (c : CriteriaContext) (mode : QueryMode) (result : ResultKind) :
    CriteriaContext := { c with mode, query := c.query.withResult result }

/-- The augmentor supports finding and `mode` alike and makes the same of a query in all modes. -/
structure Augmentor.Impartial (a : Augmentor) (mode : QueryMode) (entity : Entity) : Prop where
  supports : a.supports .criteria mode entity = a.supports .criteria .find entity
  rewrites : ∀ c mode result,
    a.onCriteria (c.runFor mode result) = (a.onCriteria c).map (·.runFor mode result)

inductive Rewrite where
  | source (entity : String)
  | restrict (condition : Option Root → List Root → Predicate)
  | restrictAlso (condition : Option Root → List Root → Predicate)
  | order (orders : Option Root → List Root → List Order)
  | distinct (flag : Bool)
  | group (keys : Option Root → List Root → List Expression)
  | root (choose : Option Root → List Root → Option Root)

def Rewrite.apply (c : CriteriaContext) : Rewrite → CriteriaContext
  | .source entity => { c with query := (c.query.addRoot entity).1 }
  | .restrict f => { c with query := c.query.restrict (f c.root c.query.roots) }
  | .restrictAlso f => { c with query := c.query.restrictAlso (f c.root c.query.roots) }
  | .order f => { c with query := c.query.orderedBy (f c.root c.query.roots) }
  | .distinct flag => { c with query := c.query.setDistinct flag }
  | .group f => { c with query := c.query.groupedBy (f c.root c.query.roots) }
  | .root f => { c with root := f c.root c.query.roots }

def Augmentor.rewriting (name : String) (changes : List Rewrite) : Augmentor where
  name
  supports _ _ _ := true
  onCriteria c := .ok (changes.foldl Rewrite.apply c)

theorem Rewrite.apply_runFor (c : CriteriaContext) (change : Rewrite) (mode : QueryMode)
    (result : ResultKind) : apply (c.runFor mode result) change = (apply c change).runFor mode result := by
  cases change with
  | source entity =>
    have hroot := congrArg Prod.fst (c.query.addRoot_withResult result entity)
    show { c.runFor mode result with query := ((c.query.withResult result).addRoot entity).1 } = _
    rw [hroot]
    rfl
  | _ => rfl

theorem Augmentor.impartial_rewriting (name : String) (changes : List Rewrite) (mode : QueryMode)
    (entity : Entity) : (rewriting name changes).Impartial mode entity := by
  refine ⟨rfl, fun c mode result => congrArg Except.ok ?_⟩
  induction changes generalizing c with
  | nil => rfl
  | cons change rest ih =>
    rw [List.foldl_cons, List.foldl_cons, Rewrite.apply_runFor, ih]

namespace Augmentation

theorem thread_runFor
    (changes : List (String × (CriteriaContext → Except AugmentError CriteriaContext)))
    (h : ∀ change ∈ changes, ∀ c mode result,
      change.2 (c.runFor mode result) = (change.2 c).map (·.runFor mode result))
    (c : CriteriaContext) (mode : QueryMode) (result : ResultKind) :
    (thread (c.runFor mode result) changes).outcome =
      (thread c changes).outcome.map (·.runFor mode result) := by
  induction changes generalizing c with
  | nil => rfl
  | cons change rest ih =>
    obtain ⟨name, change⟩ := change
    have hchange := h _ (.head _) c mode result
    dsimp only at hchange
    rw [thread, thread, hchange]
    cases change c with
    | error e => rfl
    | ok d => exact ih (fun r hr => h r (.tail _ hr)) d

theorem onCriteria_runFor {augmentors : List Augmentor} {mode : QueryMode} {c : CriteriaContext}
    (h : ∀ a ∈ augmentors, a.Impartial mode c.entity) (hc : c.mode = .find) (result : ResultKind) :
    (onCriteria augmentors (c.runFor mode result)).outcome =
      (onCriteria augmentors c).outcome.map (·.runFor mode result) := by
  have hsupporting : supporting augmentors .criteria mode c.entity =
      supporting augmentors .criteria c.mode c.entity := by
    rw [hc]
    exact List.filter_congr fun a ha => (h a ha).supports
  show (thread (c.runFor mode result) ((supporting augmentors .criteria mode c.entity).map
    fun a => (a.name, a.onCriteria))).outcome = _
  rw [hsupporting]
  refine thread_runFor _ (fun change hchange => ?_) c mode result
  obtain ⟨a, ha, rfl⟩ := List.mem_map.1 hchange
  exact (h a (List.mem_filter.1 ha).1).rewrites

end Augmentation

end EntityQuery
