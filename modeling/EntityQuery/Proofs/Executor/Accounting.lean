import EntityQuery.Proofs.Executor.Lookup
import EntityQuery.Proofs.Executor.Unsorted
/-! What the counters of an executor report. A query is counted before the session prepares it, so
the queries that the session refuses are counted as well; the look-ups that find nothing and the
rows that are summed are counted when that is what happened. -/
namespace EntityQuery
open Criteria Evaluation

/-- How often the things happened that an executor counts. -/
@[ext]
structure Tally where
  queries : Nat := 0
  countQueries : Nat := 0
  misses : Nat := 0
  rows : Nat := 0
deriving DecidableEq

namespace Tally

instance : Zero Tally := ⟨{}⟩

instance : Add Tally := ⟨fun t u =>
  ⟨t.queries + u.queries, t.countQueries + u.countQueries, t.misses + u.misses, t.rows + u.rows⟩⟩

instance : AddCommMonoid Tally where
  add_assoc _ _ _ := Tally.ext (Nat.add_assoc ..) (Nat.add_assoc ..) (Nat.add_assoc ..)
    (Nat.add_assoc ..)
  zero_add _ := Tally.ext (Nat.zero_add _) (Nat.zero_add _) (Nat.zero_add _) (Nat.zero_add _)
  add_zero _ := rfl
  add_comm _ _ := Tally.ext (Nat.add_comm ..) (Nat.add_comm ..) (Nat.add_comm ..) (Nat.add_comm ..)
  nsmul := nsmulRec

@[simp] theorem misses_add (t u : Tally) : (t + u).misses = t.misses + u.misses := rfl

@[simp] theorem rows_add (t u : Tally) : (t + u).rows = t.rows + u.rows := rfl

theorem eq_zero_of_add {t u : Tally} (h : t + u = 0) : t = 0 :=
  Tally.ext (Nat.eq_zero_of_add_eq_zero_right (congrArg queries h))
    (Nat.eq_zero_of_add_eq_zero_right (congrArg countQueries h))
    (Nat.eq_zero_of_add_eq_zero_right (congrArg misses h))
    (Nat.eq_zero_of_add_eq_zero_right (congrArg rows h))

end Tally

/-- The counters `m'` are `m` with a tally added, modulo `2 ^ 64`. -/
structure Metrics.Adds (m m' : Metrics) (t : Tally) : Prop where
  queries : m'.queriesBuilt = m.queriesBuilt + UInt64.ofNat t.queries
  countQueries : m'.countQueriesBuilt = m.countQueriesBuilt + UInt64.ofNat t.countQueries
  misses : m'.findOneMisses = m.findOneMisses + UInt64.ofNat t.misses
  rows : m'.countRowsSummed = m.countRowsSummed + UInt64.ofNat t.rows

namespace Metrics
variable {m m' m'' : Metrics} {t u : Tally}

theorem Adds.refl (m : Metrics) : m.Adds m 0 :=
  ⟨(UInt64.add_zero _).symm, (UInt64.add_zero _).symm, (UInt64.add_zero _).symm,
    (UInt64.add_zero _).symm⟩

theorem Adds.trans (h : m.Adds m' t) (h' : m'.Adds m'' u) : m.Adds m'' (t + u) where
  queries := by rw [h'.queries, h.queries, UInt64.add_assoc, ← UInt64.ofNat_add]; rfl
  countQueries := by rw [h'.countQueries, h.countQueries, UInt64.add_assoc, ← UInt64.ofNat_add]; rfl
  misses := by rw [h'.misses, h.misses, UInt64.add_assoc, ← UInt64.ofNat_add]; rfl
  rows := by rw [h'.rows, h.rows, UInt64.add_assoc, ← UInt64.ofNat_add]; rfl

theorem Adds.of_eq (h : (m'.queriesBuilt, m'.countQueriesBuilt, m'.findOneMisses,
      m'.countRowsSummed) =
    (m.queriesBuilt, m.countQueriesBuilt, m.findOneMisses, m.countRowsSummed)) : m.Adds m' 0 := by
  simp only [Prod.mk.injEq] at h
  obtain ⟨hqueries, hcounts, hmisses, hrows⟩ := h
  exact ⟨hqueries.trans (refl m).queries, hcounts.trans (refl m).countQueries,
    hmisses.trans (refl m).misses, hrows.trans (refl m).rows⟩

theorem adds_noteQuery (m : Metrics) : m.Adds m.noteQuery { queries := 1 } :=
  ⟨rfl, (Adds.refl m).countQueries, (Adds.refl m).misses, (Adds.refl m).rows⟩

theorem adds_noteCountQuery (m : Metrics) : m.Adds m.noteCountQuery { countQueries := 1 } :=
  ⟨(Adds.refl m).queries, rfl, (Adds.refl m).misses, (Adds.refl m).rows⟩

theorem adds_noteMiss (m : Metrics) : m.Adds m.noteMiss { misses := 1 } :=
  ⟨(Adds.refl m).queries, (Adds.refl m).countQueries, rfl, (Adds.refl m).rows⟩

theorem adds_addCountRows (m : Metrics) (n : Nat) : m.Adds (m.addCountRows n) { rows := n } :=
  ⟨(Adds.refl m).queries, (Adds.refl m).countQueries, (Adds.refl m).misses, rfl⟩

end Metrics

namespace Run
variable {α β : Type}

theorem metrics_bind_of_keeps {x : Run α} {f : α → Run β}
    (h : ∀ a, Keeps ObservedSession.metrics (f a)) (o : ObservedSession) :
    ((x >>= f).after o).metrics = (x.after o).metrics := by
  cases hx : x.outcome o with
  | ok a => rw [(bind_of_ok hx).2, h a]
  | error e => rw [(bind_of_error hx).2]

theorem keeps_rows (q : PreparedQuery) : Keeps ObservedSession.metrics (Run.rows q) :=
  .bind .get fun _ => .bind (.of_modify fun _ => rfl) fun _ => .ofSession _

end Run

namespace Executor

/-- A call on an executor, or whatever is done with its session in between: rows are stored, a
failure is set to come, a query that a call returned is run. -/
inductive Call where
  | query (spec : Option Specification) (sorting : Option Sorting)
  | countQuery (spec : Option Specification) (mode : QueryMode)
  | findOne (id : Value)
  | count (spec : Option Specification) (mode : QueryMode)
  | countById (id : Value) (mode : QueryMode)
  | countByEntity (row : Value) (mode : QueryMode)
  | session (change : Session → Session)

def ofResult {ε α : Type} : Except ε α → Nat
  | .ok _ => 1
  | .error _ => 0

/-- The rows of a count query whose total was returned. -/
def rowsOf {ε α β : Type} : Except ε α → Except ε (List β) → Nat
  | .ok _, .ok vs => vs.length
  | _, _ => 0

section
variable {α : Type} (x : Executor) (decode : Decode α)

def Call.after (o : ObservedSession) : Call → ObservedSession
  | .query spec sorting => (x.query spec sorting).after o
  | .countQuery spec mode => (x.countQuery spec mode).after o
  | .findOne id => (x.findOne decode id).after o
  | .count spec mode => (x.count spec mode).after o
  | .countById id mode => (x.countById id mode).after o
  | .countByEntity row mode => (x.countByEntity row mode).after o
  | .session change => { o with session := change o.session }

def countQueryById (id : Value) (mode : QueryMode) : Run PreparedQuery := do
  let q ← x.countQuery (some x.byId) mode
  Run.ofSession (q.bind x.idParameter id)

def reportedById (o : ObservedSession) (id : Value) (mode : QueryMode) : Tally where
  countQueries := ofResult ((x.countQuery (some x.byId) mode).outcome o)
  rows := rowsOf ((x.countById id mode).outcome o)
    ((x.countQueryById id mode >>= Run.rows).outcome o)

/-- What a call has to report: the queries that were returned by it or within it, whether it
returned that there is no row, and the rows that were summed to the total it returned. -/
def Call.reported (o : ObservedSession) : Call → Tally
  | .query spec sorting => { queries := ofResult ((x.query spec sorting).outcome o) }
  | .countQuery spec mode => { countQueries := ofResult ((x.countQuery spec mode).outcome o) }
  | .findOne id => {
      queries := ofResult ((x.query (some x.byId) none).outcome o)
      misses := match (x.findOne decode id).outcome o with
        | .ok none => 1
        | _ => 0 }
  | .count spec mode => {
      countQueries := ofResult ((x.countQuery spec mode).outcome o)
      rows := rowsOf ((x.count spec mode).outcome o)
        ((x.countQuery spec mode >>= Run.rows).outcome o) }
  | .countById id mode => x.reportedById o id mode
  | .countByEntity row mode => x.reportedById o ((x.entity.idOf? row).getD .null) mode
  | .session _ => 0

/-- One when a query is built that the session refuses. -/
def refused (o : ObservedSession) (result : ResultKind) (spec : Option Specification)
    (mode : QueryMode) (select : Query → Root → Query) : Nat :=
  match (x.build result spec mode).outcome o with
  | .ok (q, root) => 1 - ofResult (o.session.prepare (select q root))
  | .error _ => 0

def Call.refused (o : ObservedSession) : Call → Tally
  | .query spec sorting => { queries := x.refused o .entity spec .find (selected sorting) }
  | .findOne _ => { queries := x.refused o .entity (some x.byId) .find (selected none) }
  | .countQuery spec mode | .count spec mode =>
    { countQueries := x.refused o .long spec mode counted }
  | .countById _ mode | .countByEntity _ mode =>
    { countQueries := x.refused o .long (some x.byId) mode counted }
  | .session _ => 0

end

section
variable {x : Executor} {o : ObservedSession}

theorem countQuery_eq (x : Executor) (spec : Option Specification) (mode : QueryMode) :
    x.countQuery spec mode = x.build .long spec mode >>= fun b =>
      x.prepare .countQueryBuilt Metrics.noteCountQuery (counted b.1 b.2) := rfl

section
variable {result : ResultKind} {spec : Option Specification} {mode : QueryMode} {event : Event}
  {note : Metrics → Metrics} {select : Query → Root → Query}

theorem ofResult_add_refused :
    ofResult ((x.build result spec mode >>= fun b =>
        x.prepare event note (select b.1 b.2)).outcome o) + x.refused o result spec mode select =
      ofResult ((x.build result spec mode).outcome o) := by
  have hsession := (x.gives_build spec o.session result mode o rfl).2
  unfold refused
  cases hb : (x.build result spec mode).outcome o with
  | error e =>
    rw [(Run.bind_of_error hb).1]
    rfl
  | ok b =>
    obtain ⟨q, root⟩ := b
    dsimp only
    rw [(Run.bind_of_ok hb).1, (x.gives_prepare _ event note _ _ rfl).1, hsession, prepared]
    cases o.session.prepare (select q root) <;> rfl

/-- A query is counted when it is built, so it is counted whether it is returned or refused. -/
theorem adds_build_prepare {t : Nat → Tally} (hzero : t 0 = 0)
    (hnote : ∀ m : Metrics, m.Adds (note m) (t 1)) :
    o.metrics.Adds ((x.build result spec mode >>= fun b =>
        x.prepare event note (select b.1 b.2)).after o).metrics
      (t (ofResult ((x.build result spec mode >>= fun b =>
          x.prepare event note (select b.1 b.2)).outcome o) +
        x.refused o result spec mode select)) := by
  have hbuild : o.metrics.Adds ((x.build result spec mode).after o).metrics 0 :=
    .of_eq (keeps_build (f := fun m : Metrics => (m.queriesBuilt, m.countQueriesBuilt,
      m.findOneMisses, m.countRowsSummed)) (fun _ _ => rfl) result spec mode o)
  rw [ofResult_add_refused]
  cases hb : (x.build result spec mode).outcome o with
  | error e =>
    rw [(Run.bind_of_error hb).2]
    exact hzero ▸ hbuild
  | ok b =>
    rw [(Run.bind_of_ok hb).2, metrics_prepare]
    have hadds := hbuild.trans (hnote ((x.build result spec mode).after o).metrics)
    rwa [zero_add] at hadds

theorem adds_query (x : Executor) (o : ObservedSession) (spec : Option Specification)
    (sorting : Option Sorting) : o.metrics.Adds ((x.query spec sorting).after o).metrics
      { queries := ofResult ((x.query spec sorting).outcome o) +
          x.refused o .entity spec .find (selected sorting) } := by
  rw [query_eq]
  exact adds_build_prepare (t := fun n => { queries := n }) rfl Metrics.adds_noteQuery

theorem adds_countQuery (x : Executor) (o : ObservedSession) (spec : Option Specification)
    (mode : QueryMode) : o.metrics.Adds ((x.countQuery spec mode).after o).metrics
      { countQueries := ofResult ((x.countQuery spec mode).outcome o) +
          x.refused o .long spec mode counted } := by
  rw [countQuery_eq]
  exact adds_build_prepare (t := fun n => { countQueries := n }) rfl Metrics.adds_noteCountQuery

end

theorem adds_runCount (p : PreparedQuery) (o : ObservedSession) :
    o.metrics.Adds ((x.runCount p).after o).metrics
      { rows := rowsOf ((x.runCount p).outcome o) ((Run.rows p).outcome o) } := by
  have hrows : ((Run.rows p).after o).metrics = o.metrics := Run.keeps_rows p o
  unfold runCount
  cases hr : (Run.rows p).outcome o with
  | error e =>
    rw [(Run.bind_of_error hr).1, (Run.bind_of_error hr).2, hrows]
    exact .refl _
  | ok vs =>
    rw [(Run.bind_of_ok hr).1, (Run.bind_of_ok hr).2]
    cases hd : Decode.rows Decode.count vs with
    | error e =>
      show o.metrics.Adds ((Run.rows p).after o).metrics 0
      rw [hrows]
      exact .refl _
    | ok counts =>
      have hlength : vs.length = counts.length := (mapM_eq_ok_iff.1 hd).length_eq
      rw [show Run.ofSession (Except.ok counts) = pure counts from rfl, pure_bind]
      cases total counts with
      | error e =>
        show o.metrics.Adds ((Run.rows p).after o).metrics 0
        rw [hrows]
        exact .refl _
      | ok t =>
        show o.metrics.Adds (((Run.rows p).after o).metrics.addCountRows counts.length)
          { rows := vs.length }
        rw [hrows, hlength]
        exact o.metrics.adds_addCountRows _

theorem adds_bind_runCount {y : Run PreparedQuery} {returned refused : Nat}
    (h : o.metrics.Adds (y.after o).metrics { countQueries := returned + refused }) :
    o.metrics.Adds ((y >>= x.runCount).after o).metrics
      ({ countQueries := returned
         rows := rowsOf ((y >>= x.runCount).outcome o) ((y >>= Run.rows).outcome o) } +
        { countQueries := refused }) := by
  cases hy : y.outcome o with
  | error e =>
    rw [(Run.bind_of_error hy).1, (Run.bind_of_error hy).2]
    exact h
  | ok p =>
    rw [(Run.bind_of_ok hy).1, (Run.bind_of_ok hy).1, (Run.bind_of_ok hy).2]
    have hsum (n : Nat) : ({ countQueries := returned + refused } + { rows := n } : Tally) =
        { countQueries := returned, rows := n } + { countQueries := refused } :=
      Tally.ext rfl rfl rfl (Nat.zero_add n)
    rw [← hsum]
    exact h.trans (adds_runCount p _)

theorem countById_eq (x : Executor) (id : Value) (mode : QueryMode) :
    x.countById id mode = x.countQueryById id mode >>= x.runCount := by
  simp only [countById, countQueryById, bind_assoc]

theorem adds_countById (x : Executor) (o : ObservedSession) (id : Value) (mode : QueryMode) :
    o.metrics.Adds ((x.countById id mode).after o).metrics
      (x.reportedById o id mode +
        { countQueries := x.refused o .long (some x.byId) mode counted }) := by
  have hquery := x.adds_countQuery o (some x.byId) mode
  rw [← Run.metrics_bind_of_keeps (f := fun q => Run.ofSession (q.bind x.idParameter id))
    fun q => .ofSession _] at hquery
  rw [reportedById, countById_eq]
  exact adds_bind_runCount hquery

theorem adds_looked (x : Executor) (o : ObservedSession) (id : Value) :
    o.metrics.Adds ((x.looked id).after o).metrics
      { queries := ofResult ((x.query (some x.byId) none).outcome o) +
          x.refused o .entity (some x.byId) .find (selected none) } := by
  unfold looked
  rw [Run.metrics_bind_of_keeps fun p => .bind (.ofSession _) Run.keeps_rows]
  exact x.adds_query o _ _

theorem adds_findOne {α : Type} (x : Executor) (decode : Decode α) (o : ObservedSession)
    (id : Value) : o.metrics.Adds ((x.findOne decode id).after o).metrics
      ((Call.findOne id).reported x decode o + (Call.findOne id).refused x o) := by
  have hlooked := x.adds_looked o id
  unfold Call.reported Call.refused
  dsimp only
  rw [findOne_eq]
  cases hrows : (x.looked id).outcome o with
  | error e =>
    rw [(Run.bind_of_error hrows).1, (Run.bind_of_error hrows).2]
    exact hlooked
  | ok vs =>
    rw [(Run.bind_of_ok hrows).1, (Run.bind_of_ok hrows).2]
    match vs with
    | [] => exact hlooked.trans ((x.looked id).after o).metrics.adds_noteMiss
    | [v] =>
      simp only [single]
      -- A row that cannot be read is an error and no miss.
      cases Decode.row decode v with
      | error e => exact hlooked
      | ok a => exact hlooked
    | v :: w :: rest => exact hlooked

theorem Call.adds {α : Type} (x : Executor) (decode : Decode α) (o : ObservedSession) (c : Call) :
    o.metrics.Adds (c.after x decode o).metrics (c.reported x decode o + c.refused x o) := by
  cases c with
  | query spec sorting => exact x.adds_query o spec sorting
  | countQuery spec mode => exact x.adds_countQuery o spec mode
  | findOne id => exact x.adds_findOne decode o id
  | count spec mode => exact adds_bind_runCount (x.adds_countQuery o spec mode)
  | countById id mode => exact x.adds_countById o id mode
  | countByEntity row mode => exact x.adds_countById o _ mode
  | session change => exact .refl _

end

section
variable {α : Type} (x : Executor) (decode : Decode α)

/-- What is told of each of the calls in the state that it is made in, added up. -/
def tallied (told : ObservedSession → Call → Tally) (o : ObservedSession) : List Call → Tally
  | [] => 0
  | c :: rest => told o c + tallied told (c.after x decode o) rest

theorem tallied_append (told : ObservedSession → Call → Tally) (o : ObservedSession)
    (done rest : List Call) : x.tallied decode told o (done ++ rest) =
      x.tallied decode told o done +
        x.tallied decode told (done.foldl (Call.after x decode) o) rest := by
  induction done generalizing o with
  | nil => exact (zero_add _).symm
  | cons c done ih =>
    rw [List.cons_append, tallied, tallied, ih, add_assoc]
    rfl

/-- The counters of a run tell what was reported and, besides, what was refused. -/
theorem adds_calls (o : ObservedSession) (calls : List Call) :
    o.metrics.Adds (calls.foldl (Call.after x decode) o).metrics
      (x.tallied decode (Call.reported x decode) o calls +
        x.tallied decode (Call.refused x) o calls) := by
  induction calls generalizing o with
  | nil => exact .refl _
  | cons c rest ih =>
    rw [tallied, tallied, add_add_add_comm]
    exact (c.adds x decode o).trans (ih _)

theorem Call.refused_le (o : ObservedSession) (c : Call) : (c.refused x o).queries ≤ 1 ∧
    (c.refused x o).countQueries ≤ 1 ∧ (c.refused x o).misses = 0 ∧ (c.refused x o).rows = 0 := by
  have hle : ∀ result spec mode select, x.refused o result spec mode select ≤ 1 := by
    intro result spec mode select
    unfold Executor.refused
    split
    · exact Nat.sub_le _ _
    · exact Nat.zero_le _
  cases c with
  | query => exact ⟨hle .., Nat.zero_le 1, rfl, rfl⟩
  | findOne => exact ⟨hle .., Nat.zero_le 1, rfl, rfl⟩
  | session => exact ⟨Nat.zero_le 1, Nat.zero_le 1, rfl, rfl⟩
  | countQuery | count | countById | countByEntity =>
    exact ⟨Nat.zero_le 1, hle .., rfl, rfl⟩

theorem tallied_refused (o : ObservedSession) (calls : List Call) :
    (x.tallied decode (Call.refused x) o calls).misses = 0 ∧
      (x.tallied decode (Call.refused x) o calls).rows = 0 := by
  induction calls generalizing o with
  | nil => exact ⟨rfl, rfl⟩
  | cons c rest ih =>
    obtain ⟨-, -, hmisses, hrows⟩ := c.refused_le x o
    obtain ⟨hmisses', hrows'⟩ := ih (c.after x decode o)
    exact ⟨Nat.add_eq_zero_iff.2 ⟨hmisses, hmisses'⟩, Nat.add_eq_zero_iff.2 ⟨hrows, hrows'⟩⟩

theorem Call.refused_eq_zero {m m' : Metrics} {t : Tally} {o : ObservedSession} {c : Call}
    (h : m.Adds m' t) (h' : m.Adds m' (t + c.refused x o)) : c.refused x o = 0 := by
  have hzero : ∀ {k : UInt64} {n r : Nat}, r ≤ 1 → k + UInt64.ofNat n = k + UInt64.ofNat (n + r) →
      r = 0 := by
    intro k n r hr he
    rw [UInt64.ofNat_add, ← UInt64.add_assoc, eq_comm, UInt64.add_eq_left] at he
    interval_cases r
    · rfl
    · cases he
  obtain ⟨hqueries, hcounts, hmisses, hrows⟩ := c.refused_le x o
  exact Tally.ext (hzero hqueries (h.queries.symm.trans h'.queries))
    (hzero hcounts (h.countQueries.symm.trans h'.countQueries)) hmisses hrows

/-- When the counters of every beginning of a run report what was returned in it, nothing was
refused: the first call that is refused a query would show. -/
theorem tallied_refused_eq_zero {o : ObservedSession} {calls : List Call}
    (h : ∀ done, done <+: calls → o.metrics.Adds (done.foldl (Call.after x decode) o).metrics
      (x.tallied decode (Call.reported x decode) o done)) :
    x.tallied decode (Call.refused x) o calls = 0 := by
  -- From the back: what is refused before the last call is none by the beginnings that lack it.
  induction calls using List.reverseRecOn with
  | nil => rfl
  | append_singleton done c ih =>
    have hdone := ih fun before hbefore => h before (hbefore.trans (List.prefix_append _ _))
    have hall := h (done ++ [c]) List.prefix_rfl
    have hadds := x.adds_calls decode o (done ++ [c])
    have hsum := x.tallied_append decode (Call.refused x) o done [c]
    rw [hdone, zero_add] at hsum
    rw [hsum] at hadds ⊢
    exact Call.refused_eq_zero x hall hadds

/-- What the counters report of a run. The look-ups that found nothing and the rows that were
summed are those that calls returned, and to the queries that were returned those are added that the
session refused. So all counters report what happened, at every point of the run, exactly when no
query was refused in it. -/
theorem counters_report_iff (o : ObservedSession) (calls : List Call) :
    let after (done : List Call) : ObservedSession := done.foldl (Call.after x decode) o
    let reported : List Call → Tally := x.tallied decode (Call.reported x decode) o
    let refused : Tally := x.tallied decode (Call.refused x) o calls
    let m := o.metrics
    let m' := (after calls).metrics
    (m'.findOneMisses = m.findOneMisses + .ofNat (reported calls).misses ∧
        m'.countRowsSummed = m.countRowsSummed + .ofNat (reported calls).rows ∧
        m'.queriesBuilt =
          m.queriesBuilt + .ofNat ((reported calls).queries + refused.queries) ∧
        m'.countQueriesBuilt =
          m.countQueriesBuilt + .ofNat ((reported calls).countQueries + refused.countQueries)) ∧
      ((∀ done, done <+: calls → m.Adds (after done).metrics (reported done)) ↔ refused = 0) := by
  intro after reported refused m m'
  refine ⟨?_, fun h => ?_, ?_⟩
  · obtain ⟨hqueries, hcounts, hmisses, hrows⟩ := x.adds_calls decode o calls
    obtain ⟨hmisses', hrows'⟩ := x.tallied_refused decode o calls
    exact ⟨hmisses.trans (by rw [Tally.misses_add, hmisses', Nat.add_zero]),
      hrows.trans (by rw [Tally.rows_add, hrows', Nat.add_zero]), hqueries, hcounts⟩
  · exact x.tallied_refused_eq_zero decode h
  · rintro hrefused done ⟨rest, rfl⟩
    have hdone : x.tallied decode (Call.refused x) o done = 0 :=
      Tally.eq_zero_of_add ((x.tallied_append decode _ o done rest).symm.trans hrefused)
    have hadds := x.adds_calls decode o done
    rwa [hdone, add_zero] at hadds

/-- A look-up misses, a count fails and one succeeds, and nothing is refused. -/
theorem counters_report_iff_of_known :
    let x : Executor := { entity := .ofName "E" "id" .integer }
    let o : ObservedSession := { session := { store := { tables :=
      [("E", [.object [("id", .integer 1)]])] } } }
    let calls : List Call := [.findOne (.integer 2),
      .session fun s => { s with store := s.store.failNext "down" },
      .count none .count, .countById (.integer 1) .exists]
    (calls.foldl (Call.after x Decode.value) o).metrics = ⟨1, 2, 0, 1, 1⟩ ∧
      ∀ done, done <+: calls → o.metrics.Adds (done.foldl (Call.after x Decode.value) o).metrics
        (x.tallied Decode.value (Call.reported x Decode.value) o done) := by
  intro x o calls
  have hrefused : x.tallied Decode.value (Call.refused x) o calls = 0 := by decide +kernel
  exact ⟨by decide +kernel, (counters_report_iff x Decode.value o calls).2.2 hrefused⟩

/-- The session does not know the entity: the queries are counted all the same. -/
theorem counters_of_refused :
    let x : Executor := { entity := .ofName "Nope" "id" .integer }
    (x.query none none).outcome {} = .error (.session (.unknownEntity "Nope")) ∧
      (x.countQuery none .count).outcome {} = .error (.session (.unknownEntity "Nope")) ∧
      ([.query none none, .countQuery none .count].foldl (Call.after x Decode.value) {}).metrics =
        ⟨1, 1, 0, 0, 0⟩ := by
  exact ⟨rfl, rfl, by decide +kernel⟩

end

end Executor

end EntityQuery
