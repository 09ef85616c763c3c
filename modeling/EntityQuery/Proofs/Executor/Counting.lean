import EntityQuery.Proofs.Evaluation.Count
import EntityQuery.Proofs.Executor.Impartial
import EntityQuery.Proofs.Executor.Pipeline
/-! Counting agrees with finding: for specifications and augmentors that make the same of a query
whatever it is run for, the number that is counted is that of the rows that are found. -/
namespace EntityQuery
open Criteria Evaluation

theorem Decode.rows_value (vs : List Value) : Decode.rows Decode.value vs = .ok vs :=
  mapM_eq_ok_iff.2 (List.forall₂_same.2 fun _ _ => rfl)

namespace Executor
variable {x : Executor} {spec : Option Specification} {mode : QueryMode}

theorem blind_whenGiven (h : ∀ p ∈ spec, p.Composed) :
    (Specification.whenGiven spec).Blind := by
  cases spec with
  | none => exact Specification.Composed.absent.blind
  | some p => exact (h p rfl).blind

theorem contextOf_runFor (h : (Specification.whenGiven spec).Blind) (result : ResultKind) :
    x.contextOf result spec mode = (x.contextOf .entity spec .find).runFor mode result := by
  have hroot := Query.addRoot_withResult ⟨.entity, [], none, none, [], [], false⟩ result x.entity.type
  unfold contextOf
  rw [show Query.addRoot ⟨result, [], none, none, [], [], false⟩ x.entity.type = _ from hroot]
  dsimp only
  rw [h]
  dsimp only
  cases (Specification.whenGiven spec _ _).1 <;> rfl

theorem augmented_runFor (h : ∀ a ∈ x.augmentors, a.Impartial mode x.entity) (result : ResultKind) :
    x.augmented ((x.contextOf .entity spec .find).runFor mode result) =
      (x.augmented (x.contextOf .entity spec .find)).map (·.runFor mode result) := by
  unfold augmented
  split
  · exact Augmentation.onCriteria_runFor h rfl result
  · rfl

theorem built_runFor (hspec : (Specification.whenGiven spec).Blind)
    (haug : ∀ a ∈ x.augmentors, a.Impartial mode x.entity) (result : ResultKind) :
    x.built result spec mode =
      (x.built .entity spec .find).map fun b => (b.1.withResult result, b.2) := by
  unfold built
  rw [contextOf_runFor hspec, augmented_runFor haug]
  cases x.augmented (x.contextOf .entity spec .find) with
  | error e => rfl
  | ok c =>
    obtain ⟨mode, q, root, entity⟩ := c
    cases root <;> rfl

theorem exactSum_natCast (counts : List Nat) :
    exactSum (counts.map fun n : Nat => some (n : Int)) = counts.sum := by
  induction counts with
  | nil => rfl
  | cons n counts ih => simp [ih]

theorem summed_counts {counts : List Nat} (h : counts.sum < 2 ^ 63) :
    summed (counts.map fun n : Nat => Value.integer n) = .ok counts.sum := by
  let found := counts.map fun n : Nat => some (n : Int)
  have hmem : ∀ n, some n ∈ found → ∃ k ∈ counts, (k : Int) = n := fun n hn => by
    obtain ⟨k, hk, he⟩ := List.mem_map.1 hn
    exact ⟨k, hk, Option.some.inj he⟩
  have hlong : ∀ n, some n ∈ found → Number.IsLong n := by
    intro n hn
    obtain ⟨k, hk, rfl⟩ := hmem n hn
    have hle : k ≤ counts.sum := List.single_le_sum (by simp) k hk
    unfold Number.IsLong
    omega
  have hnonneg : ∀ n, some n ∈ found → 0 ≤ n := by
    intro n hn
    obtain ⟨k, -, rfl⟩ := hmem n hn
    exact Int.natCast_nonneg k
  have hsum : exactSum found = counts.sum := exactSum_natCast counts
  have htotal : total found = .ok counts.sum := by
    rw [total_of_nonneg hnonneg, hsum]
    rw [hsum]
    unfold Number.IsLong
    omega
  have hrows := Decode.rows_ofCount hlong
  rw [List.map_map] at hrows
  show (Decode.rows Decode.count (counts.map (Value.ofCount ∘ fun n : Nat => some (n : Int)))).mapError
    _ >>= _ = _
  rw [hrows]
  show (total found).mapError _ = _
  rw [htotal]
  rfl

/-- The rows of an augmented query are as many as the query for their number counts. -/
theorem execute_counted (tables : Tables) {q : Query} (root : Root) (result : ResultKind)
    (b : Bindings) (hg : q.distinct = true → q.groupBy = []) :
    (∃ e, execute tables (selected none q root) b = .error e ∧
        ((execute tables (counted (q.withResult result) root) b).mapError .session >>= summed) =
          .error (.session e)) ∨
      ∃ vs, execute tables (selected none q root) b = .ok vs ∧
        (vs.length < 2 ^ 63 →
          ((execute tables (counted (q.withResult result) root) b).mapError .session >>= summed) =
            .ok vs.length) := by
  have htuples : tuples tables (counted (q.withResult result) root) b =
      tuples tables (selected none q root) b := rfl
  rw [execute_eq, execute_eq, htuples]
  cases hcs : tuples tables (selected none q root) b with
  | error e => exact .inl ⟨e, rfl, rfl⟩
  | ok cs =>
    have hready := tuples_eq_ok hcs
    have halias := hready.valid.aliases root.aliasName (mem_referredAliases.2 (.inr (.inl rfl)))
    obtain ⟨vs, counts, hrows, hcounts, hsum⟩ := hready.rows_counts halias hg
    refine .inr ⟨vs, hrows, fun hlt => ?_⟩
    have hcounted : results (counted (q.withResult result) root) b cs =
        .ok (counts.map fun n : Nat => Value.integer n) := hcounts
    rw [ok_bind, hcounted, ← hsum]
    exact summed_counts (by omega)

/-- Counting agrees with finding, however the rows are read: both fail alike before there are
rows, or the count is the number of rows, even of those that are no results of the type asked for.
No list of rows in memory is too long for a count. -/
theorem count_eq_length_found {α : Type} (x : Executor) (spec : Option Specification)
    (mode : QueryMode) (decode : Decode α) (o : ObservedSession)
    (hs : o.session.answers = none) (hf : o.session.store.failure = none)
    (hspec : ∀ p ∈ spec, p.Composed) (haug : ∀ a ∈ x.augmentors, a.Impartial mode x.entity)
    (hgroups : ∀ q root, (x.build .entity spec .find).outcome o = .ok (q, root) →
      q.distinct = true → q.groupBy = []) :
    (∃ e, (x.found decode spec none).outcome o = .error e ∧
        (x.count spec mode).outcome o = .error e) ∨
      ∃ vs, (x.found Decode.value spec none).outcome o = .ok vs ∧
        (x.found decode spec none).outcome o = (Decode.rows decode vs).mapError .session ∧
        (vs.length < 2 ^ 63 → (x.count spec mode).outcome o = .ok vs.length) := by
  have hbuild := (x.gives_build spec o.session .entity .find o rfl).1
  have hfound : ∀ {β : Type} (decode : Decode β), _ := fun decode =>
    (x.gives_found spec hs hf decode none o rfl).1
  rw [hfound decode, hfound Decode.value, (x.gives_count spec hs hf mode o rfl).1,
    built_runFor (blind_whenGiven hspec) haug]
  cases hb : x.built .entity spec .find with
  | error e => exact .inl ⟨e, rfl, rfl⟩
  | ok b =>
    obtain ⟨q, root⟩ := b
    rw [hb] at hbuild
    obtain ⟨e, hrows, hcount⟩ | ⟨vs, hrows, hcount⟩ :=
      execute_counted o.session.store.tables root .long [] (hgroups q root hbuild)
    · refine .inl ⟨.session e, ?_, ?_⟩
      · rw [ok_bind, hrows]
        rfl
      · exact hcount
    · refine .inr ⟨vs, ?_, ?_, fun hlt => ?_⟩
      · rw [ok_bind, hrows, ok_bind, Decode.rows_value]
        rfl
      · rw [ok_bind, hrows]
        rfl
      · exact hcount hlt

/-- Of equal rows that an augmentor leaves, one is found and counted. -/
theorem count_eq_length_found_active :
    let x : Executor := {
      entity := .ofName "E" "id" .integer
      augmentors := [.rewriting "active" [.restrictAlso fun root _ =>
        .comparison .eq (.path ⟨(root.map (·.aliasName)).getD "", some "active"⟩)
          (.literal (.bool true))]] }
    let once := Specification.leaf [.distinct true] fun _ _ => none
    let active := Value.object [("active", .bool true), ("id", .integer 1)]
    let o : ObservedSession := { session := { store := { tables :=
      [("E", [active, .object [("active", .bool false), ("id", .integer 2)], active])] } } }
    ∃ vs, (x.found Decode.value (some once) none).outcome o = .ok vs ∧ vs.length = 1 ∧
      (x.count (some once) .count).outcome o = .ok vs.length := by
  intro x once active o
  have hgroups : ((x.build .entity (some once) .find).outcome o).map
      (fun b => b.1.groupBy.length) = .ok 0 := by decide +kernel
  have hlength : ((x.found Decode.value (some once) none).outcome o).map List.length = .ok 1 := by
    decide +kernel
  have hcount := count_eq_length_found x (some once) .count Decode.value o rfl rfl
    (fun p hp => by cases hp; exact .leaf _ _)
    (fun a ha => by rw [List.mem_singleton.1 ha]; exact Augmentor.impartial_rewriting _ _ _ _)
    (fun q root hq _ => by
      rw [hq] at hgroups
      exact List.length_eq_zero_iff.1 (Except.ok.inj hgroups))
  obtain ⟨e, he, -⟩ | ⟨vs, hvs, -, hn⟩ := hcount
  · rw [he] at hlength
    cases hlength
  · rw [hvs] at hlength
    have hone : vs.length = 1 := Except.ok.inj hlength
    exact ⟨vs, hvs, hone, hn (by omega)⟩

/-- A row that has no name is counted but is no result with a name. -/
theorem count_of_unnamed :
    let x : Executor := { entity := .ofName "E" "id" .integer }
    let o : ObservedSession :=
      { session := { store := { tables := [("E", [.object [("id", .integer 1)]])] } } }
    let named : Decode String := fun v =>
      (v.member? "name").elim (.error "missing field name") Decode.text
    (x.found named none none).outcome o = .error (.session (.mapping "missing field name")) ∧
      (x.count none .count).outcome o = .ok 1 := by
  decide +kernel

end Executor

end EntityQuery
