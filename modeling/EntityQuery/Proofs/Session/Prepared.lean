import EntityQuery.Session.Basic
import EntityQuery.Proofs.Evaluation.Faults
/-! Prepared queries: what they run, and the values that are bound in them by name. -/
namespace EntityQuery
open Criteria Evaluation

theorem Session.prepare_eq {s : Session} (hs : s.answers = none) (q : Query) :
    s.prepare q =
      (validate s.store.tables q).map fun _ => ⟨.stored q none [] [], none, []⟩ := by
  unfold prepare
  rw [hs]
  rfl

theorem PreparedQuery.rows_eq {p : PreparedQuery} {s : Store} {q : Query} {text : Option String}
    {named : List Parameter} {b : Bindings} (hf : s.failure = none)
    (hp : p.plan = .stored q text named b) : p.rows s = (execute s.tables q b, s) := by
  unfold rows
  rw [hp, hf]

namespace PreparedQuery

def value? (p : PreparedQuery) (name : String) : Option Value :=
  match p.plan with
  | .stored _ _ _ b => b.value? (.named name)
  | .fixed _ => none

def parameterNames (p : PreparedQuery) : List String :=
  match p.plan with
  | .stored q _ _ _ => q.parameters.map (·.label)
  | .fixed _ => []

/-- A query whose parameters go by their names fails for want of a value exactly when one has none
and no other failure comes first; the failure names the first. -/
theorem rows_eq_unbound_iff {p : PreparedQuery} {s : Store} {q : Query} {text : Option String}
    {named : List Parameter} {b : Bindings} (hp : p.plan = .stored q text named b)
    (hvalid : Valid s.tables q) (hnamed : ∀ x ∈ q.parameters, x.id = .named x.label)
    (label : String) :
    (p.rows s).1 = .error (.unboundParameter label) ↔ s.failure = none ∧
      p.parameterNames.find? (fun name => (p.value? name).isNone) = some label := by
  cases hf : s.failure with
  | some reason =>
    have hinjected : (p.rows s).1 = .error (.injected reason) := by
      unfold rows
      rw [hp, hf]
    simp [hinjected]
  | none =>
    have hvalue : ∀ x ∈ q.parameters, (b.value? x.id).isNone = (p.value? x.label).isNone := by
      intro x hx
      rw [value?, hp, hnamed x hx]
    rw [rows_eq hf hp, execute_eq_unbound_iff hvalid, parameterNames, hp, List.find?_map,
      ← List.head?_filter, ← List.head?_filter, List.filter_congr hvalue]
    simp only [true_and]
    rfl

end PreparedQuery

end EntityQuery
