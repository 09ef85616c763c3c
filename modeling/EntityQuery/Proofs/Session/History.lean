import EntityQuery.Proofs.Evaluation.Sorted
import EntityQuery.Proofs.Session.Text
import EntityQuery.Proofs.Session.Prepared
/-! What happens between preparing a query and running it. Entities and rows are added and values
are bound, so a query that was valid stays valid: it can only want for a value, or for an order that
does not contradict itself. -/
namespace EntityQuery
open Criteria Evaluation

theorem Store.isSome_append {s : Store} {entity other : String} (rows : List Value)
    (h : (Dictionary.get? other s.tables).isSome) :
    (Dictionary.get? other (s.append entity rows).tables).isSome := by
  unfold append
  by_cases he : other = entity
  · rw [he, Dictionary.get?_insert_self]
    rfl
  · rwa [Dictionary.get?_insert_of_ne he]

theorem Evaluation.Valid.append {s : Store} {q : Query} (h : Valid s.tables q) (entity : String)
    (rows : List Value) : Valid (s.append entity rows).tables q :=
  ⟨h.roots, fun r hr => s.isSome_append rows (h.entities r hr), h.aliases⟩

namespace PreparedQuery

def criteria? (p : PreparedQuery) : Option Query :=
  match p.plan with
  | .stored q _ _ _ => some q
  | .fixed _ => none

def bindings (p : PreparedQuery) : Bindings :=
  match p.plan with
  | .stored _ _ _ b => b
  | .fixed _ => []

/-- The first of the query's parameters that has no value. -/
def unbound? (p : PreparedQuery) : Option Parameter :=
  p.criteria?.bind fun q => q.parameters.find? fun x => (p.bindings.value? x.id).isNone

theorem criteria?_bind {p r : PreparedQuery} {x : Parameter} {v : Value} (h : p.bind x v = .ok r) :
    r.criteria? = p.criteria? := by
  unfold bind at h
  split at h
  · cases h
    rfl
  · rename_i hp
    split at h
    · cases h
    · split at h
      · cases h
        simp [criteria?, hp]
      · cases h

theorem criteria?_bindNamed {p r : PreparedQuery} {name : String} {v : Value}
    (h : p.bindNamed name v = .ok r) : r.criteria? = p.criteria? := by
  unfold bindNamed at h
  split at h
  · cases h
    rfl
  · split at h
    · cases h
    · exact criteria?_bind h

end PreparedQuery

/-- A query and the store that it is run over. -/
structure Opened where
  store : Store
  query : PreparedQuery

inductive Operation where
  | register (entity : String)
  | insert (entity : String) (row : Value)
  | insertAll (entity : String) (rows : List Value)
  | registerGraph (name entity : String) (paths : List String)
  | failNext (reason : String)
  | bind (parameter : Parameter) (value : Value)
  | bindNamed (name : String) (value : Value)
  | run

namespace Opened

/-- Does one operation. A value that is refused leaves the query as it was. -/
def perform (s : Opened) : Operation → Opened
  | .register entity => { s with store := s.store.register entity }
  | .insert entity row => { s with store := s.store.insert entity row }
  | .insertAll entity rows => { s with store := s.store.insertAll entity rows }
  | .registerGraph name entity paths => { s with store := s.store.registerGraph name entity paths }
  | .failNext reason => { s with store := s.store.failNext reason }
  | .bind p v => { s with query := (s.query.bind p v).toOption.getD s.query }
  | .bindNamed name v => { s with query := (s.query.bindNamed name v).toOption.getD s.query }
  | .run => { s with store := (s.query.rows s.store).2 }

def result (s : Opened) : Except SessionError (List Value) := (s.query.rows s.store).1

/-- The query runs the criteria, and they are valid over the store. -/
structure Runs (s : Opened) (q : Query) : Prop where
  criteria : s.query.criteria? = some q
  valid : Valid s.store.tables q

section
variable {s : Opened} {q : Query}

theorem Runs.perform (h : s.Runs q) (op : Operation) : (s.perform op).Runs q := by
  cases op with
  | register entity => exact ⟨h.criteria, h.valid.append entity []⟩
  | insert entity row => exact ⟨h.criteria, h.valid.append entity [row]⟩
  | insertAll entity rows =>
    refine ⟨h.criteria, ?_⟩
    unfold Opened.perform Store.insertAll
    dsimp only
    split
    · exact h.valid
    · exact h.valid.append entity rows
  | registerGraph name entity paths => exact ⟨h.criteria, h.valid⟩
  | failNext reason => exact ⟨h.criteria, h.valid⟩
  | bind p v =>
    refine ⟨?_, h.valid⟩
    show ((s.query.bind p v).toOption.getD s.query).criteria? = _
    cases hr : s.query.bind p v with
    | error e => exact h.criteria
    | ok r => exact (PreparedQuery.criteria?_bind hr).trans h.criteria
  | bindNamed name v =>
    refine ⟨?_, h.valid⟩
    show ((s.query.bindNamed name v).toOption.getD s.query).criteria? = _
    cases hr : s.query.bindNamed name v with
    | error e => exact h.criteria
    | ok r => exact (PreparedQuery.criteria?_bindNamed hr).trans h.criteria
  | run =>
    refine ⟨h.criteria, ?_⟩
    have htables : (s.query.rows s.store).2.tables = s.store.tables := by
      unfold PreparedQuery.rows
      split
      · rfl
      · split <;> rfl
    show Valid (s.query.rows s.store).2.tables q
    rw [htables]
    exact h.valid

theorem Runs.foldl (h : s.Runs q) (done : List Operation) :
    (done.foldl Opened.perform s).Runs q := by
  induction done generalizing s with
  | nil => exact h
  | cons op rest ih => exact ih (h.perform op)

theorem Runs.result_eq (h : s.Runs q) (hf : s.store.failure = none) :
    s.result = execute s.store.tables q s.query.bindings := by
  have hcriteria := h.criteria
  unfold PreparedQuery.criteria? at hcriteria
  split at hcriteria
  · rename_i hplan
    cases hcriteria
    rw [result, PreparedQuery.rows_eq hf hplan, PreparedQuery.bindings, hplan]
  · cases hcriteria

end

end Opened

theorem Session.runs_of_prepared {s : Session} (hs : s.answers = none) {p : PreparedQuery}
    (hp : (∃ q, s.prepare q = .ok p) ∨ ∃ text, s.prepareText text = .ok p) :
    ∃ q, Opened.Runs ⟨s.store, p⟩ q := by
  rcases hp with ⟨q, hq⟩ | ⟨text, htext⟩
  · rw [prepare_eq hs, map_eq_ok_iff] at hq
    obtain ⟨⟨⟩, hvalid, rfl⟩ := hq
    exact ⟨q, rfl, validate_eq_ok_iff.1 hvalid⟩
  · obtain ⟨ts, q, -, -, hvalid, rfl⟩ := (prepareText_eq_ok_iff hs).1 htext
    exact ⟨q, rfl, hvalid⟩

/-- Once a query is prepared nothing can go wrong with it but that a parameter has no value or the
sort notices that the orders contradict themselves: whatever is done to the store and the query, it
runs the criteria that it was made for, and when no failure waits in the store and its patterns fit,
it fails exactly when a parameter has no value, and names the first, or the sort does. That takes
more than twenty combinations, and orders that are not consistent on them. -/
theorem Session.result_eq_error_iff (s : Session) (hs : s.answers = none)
    (p : PreparedQuery) (hp : (∃ q, s.prepare q = .ok p) ∨ ∃ text, s.prepareText text = .ok p)
    (done : List Operation) :
    let now := done.foldl Opened.perform ⟨s.store, p⟩
    ∃ q, p.criteria? = some q ∧ now.query.criteria? = some q ∧
      (now.store.failure = none → PatternsFit now.store.tables q now.query.bindings →
        ∀ e, now.result = .error e ↔ match now.query.unbound? with
          | some x => e = .unboundParameter x.label
          | none => Disordered now.store.tables q now.query.bindings ∧
              e = .panicked .orderViolation) ∧
      (Disordered now.store.tables q now.query.bindings →
        ∃ kept, matched now.store.tables q now.query.bindings = .ok kept ∧ 20 < kept.length ∧
          ¬ Sortable now.query.bindings q.orders kept) := by
  intro now
  obtain ⟨q, hruns⟩ := runs_of_prepared hs hp
  have hnow : now.Runs q := hruns.foldl done
  refine ⟨q, hruns.criteria, hnow.criteria, fun hf hfit e => ?_, Disordered.length_gt⟩
  rw [hnow.result_eq hf, execute_eq_error_iff hnow.valid hfit, PreparedQuery.unbound?,
    hnow.criteria]
  rfl

/-- A row comes, a failure comes and goes, and a number is no pattern; then the lower bound is
missing until it is given. -/
theorem Session.result_eq_error_iff_late :
    let pattern : Parameter := ⟨.declared "p", .string, none⟩
    let least : Parameter := ⟨.declared "n", .integer, some "least"⟩
    let q : Query := {
      result := .entity
      roots := [⟨"E", "e"⟩]
      restriction := some (.and [.like (.path ⟨"e", some "name"⟩) (.parameter pattern),
        .comparison .ge (.path ⟨"e", some "age"⟩) (.parameter least)]) }
    let s : Session := { store := { tables := [("E", [])] } }
    let done : List Operation := [
      .insert "E" (.object [("age", .integer 20), ("name", .string "ann")]), .failNext "down", .run,
      .bind pattern (.string "a%"), .bind pattern (.integer 1), .register "F"]
    let more : List Operation := done ++ [.bind least (.integer 18)]
    ∃ p, s.prepare q = .ok p ∧
      (done.foldl Opened.perform ⟨s.store, p⟩).result = .error (.unboundParameter "least") ∧
      ∃ vs, (more.foldl Opened.perform ⟨s.store, p⟩).result = .ok vs := by
  intro pattern least q s done more
  refine ⟨⟨.stored q none [] [], none, []⟩, rfl, ?_, ?_⟩
  · obtain ⟨q', hq, -, hresult, -⟩ := result_eq_error_iff s rfl _ (.inl ⟨q, rfl⟩) done
    cases hq
    exact (hresult rfl (by decide +kernel) _).2 rfl
  · obtain ⟨q', hq, -, hresult, -⟩ := result_eq_error_iff s rfl _ (.inl ⟨q, rfl⟩) more
    cases hq
    have herror := hresult rfl (by decide +kernel)
    cases hr : (more.foldl Opened.perform ⟨s.store, _⟩).result with
    | ok vs => exact ⟨vs, rfl⟩
    | error e =>
      obtain ⟨hdisordered, -⟩ := (herror e).1 hr
      exact absurd hdisordered (not_disordered_of_short (by decide +kernel))

/-- Rows that are inserted once the query is prepared, and that it cannot sort. -/
theorem Session.result_clashing :
    let q : Query := {
      result := .entity, roots := [⟨"E", "e"⟩], orders := [⟨.path ⟨"e", some "x"⟩, .asc⟩] }
    let s : Session := { store := { tables := [("E", [])] } }
    ∃ p, s.prepare q = .ok p ∧
      let now := [Operation.insertAll "E" clashingRows].foldl Opened.perform ⟨s.store, p⟩
      now.store.failure = none ∧ now.query.unbound? = none ∧
        now.result = .error (.panicked .orderViolation) := by
  intro q s
  exact ⟨⟨.stored q none [] [], none, []⟩, rfl, rfl, rfl,
    execute_of_disordered ⟨_, rfl, by decide +kernel⟩⟩

end EntityQuery
