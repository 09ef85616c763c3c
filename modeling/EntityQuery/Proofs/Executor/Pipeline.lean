import EntityQuery.Proofs.Executor.Total
import EntityQuery.Proofs.Session.Prepared
/-! What the queries of an executor come to in a session over stored rows: the one for rows and the
one for their number are built, augmented and run alike, and differ in what they select. -/
namespace EntityQuery
open Criteria Evaluation

theorem ObservedSession.noteApplied_session (o : ObservedSession) (kind : ContextKind)
    (mode : QueryMode) (names : List String) :
    (o.noteApplied kind mode names).session = o.session := by
  induction names generalizing o with
  | nil => rfl
  | cons name rest ih => exact ih (o.trace .augmentationApplied _)

theorem ObservedSession.noteApplied_metrics (o : ObservedSession) (kind : ContextKind)
    (mode : QueryMode) (names : List String) :
    (o.noteApplied kind mode names).metrics = o.metrics.noteAugmentations names.length := by
  have htraces : ∀ (names : List String) (o : ObservedSession), (names.foldl (fun o name =>
      o.trace .augmentationApplied [("augmentor", name), ("context", kind.text),
        ("mode", mode.text)]) o).metrics = o.metrics := by
    intro names
    induction names with
    | nil => exact fun o => rfl
    | cons name rest ih => exact fun o => ih _
  rw [noteApplied, htraces]

theorem Evaluation.validate_bind_execute (tables : Tables) (q : Query) (b : Bindings) :
    (validate tables q >>= fun _ => execute tables q b) = execute tables q b := by
  unfold execute
  cases validate tables q with
  | error e => rfl
  | ok u => rfl

namespace Executor
variable (x : Executor)

def contextOf (result : ResultKind) (spec : Option Specification) (mode : QueryMode) :
    CriteriaContext :=
  let (q, root) := Query.addRoot { result } x.entity.type
  let (condition, q) := Specification.whenGiven spec root q
  ⟨mode, match condition with
    | some p => q.restrict p
    | none => q, some root, x.entity⟩

def augmented (c : CriteriaContext) : Except AugmentError CriteriaContext :=
  if x.config.augmentationEnabled then (Augmentation.onCriteria x.augmentors c).outcome else .ok c

def rooted (c : CriteriaContext) : Except QueryError (Query × Root) :=
  match c.root with
  | some root => .ok (c.query, root)
  | none => .error (.precondition .noRoot)

def built (result : ResultKind) (spec : Option Specification) (mode : QueryMode) :
    Except QueryError (Query × Root) :=
  (x.augmented (x.contextOf result spec mode)).mapError .augmentation >>= rooted

/-- The augmented query as it is prepared for rows. -/
def selected (sorting : Option Sorting) (q : Query) (root : Root) : Query :=
  match sorting with
  | some s => (q.select (.root root.aliasName)).orderedBy (s.onRoot root)
  | none => q.select (.root root.aliasName)

/-- The augmented query as it is prepared for the number of rows. -/
def counted (q : Query) (root : Root) : Query := q.select (.count root.aliasName q.distinct)

def prepared (s : Session) (q : Query) : Except QueryError PreparedQuery :=
  ((s.prepare q).mapError .session).map (x.withMethod s)

def found {α : Type} (decode : Decode α) (spec : Option Specification) (sorting : Option Sorting) :
    Run (List α) := do
  let q ← x.query spec sorting
  let vs ← Run.rows q
  Run.ofSession (Decode.rows decode vs)

def summed (vs : List Value) : Except QueryError Int := do
  (total (← (Decode.rows Decode.count vs).mapError .session)).mapError .panicked

section
variable {x : Executor} {s : Session}

theorem setHints_plan (hints : Hints) (q : PreparedQuery) :
    (hints.foldl (fun q (name, v) => q.setHint name v) q).plan = q.plan := by
  induction hints generalizing q with
  | nil => rfl
  | cons h rest ih => exact ih (q.setHint h.1 h.2)

theorem withMethod_plan (q : PreparedQuery) : (x.withMethod s q).plan = q.plan := by
  unfold withMethod
  split
  · rfl
  · refine (setHints_plan _ _).trans ?_
    split
    · rfl
    · rfl

theorem prepared_eq_ok {q : Query} {p : PreparedQuery} (hs : s.answers = none)
    (h : x.prepared s q = .ok p) : p.plan = .stored q none [] [] := by
  rw [prepared, Session.prepare_eq hs] at h
  cases hv : validate s.store.tables q with
  | error e =>
    rw [hv] at h
    cases h
  | ok u =>
    rw [hv] at h
    cases h
    exact withMethod_plan _

theorem exists_prepared {q : Query} (hs : s.answers = none) (h : Valid s.store.tables q) :
    ∃ p, x.prepared s q = .ok p ∧ p.plan = .stored q none [] [] := by
  have hprepared : x.prepared s q =
      .ok (x.withMethod s ⟨.stored q none [] [], none, []⟩) := by
    rw [prepared, Session.prepare_eq hs, validate_eq_ok_iff.2 h]
    rfl
  exact ⟨_, hprepared, prepared_eq_ok hs hprepared⟩

/-- Running what was prepared is running the query over the stored rows. -/
theorem prepared_bind_rows (hs : s.answers = none) (hf : s.store.failure = none) (q : Query) :
    (x.prepared s q >>= fun p => (p.rows s.store).1.mapError QueryError.session) =
      (execute s.store.tables q []).mapError .session := by
  rw [← validate_bind_execute]
  unfold prepared
  rw [Session.prepare_eq hs]
  cases validate s.store.tables q with
  | error e => rfl
  | ok u =>
    have hp := withMethod_plan (x := x) (s := s) ⟨.stored q none [] [], none, []⟩
    have hrows := congrArg Prod.fst (PreparedQuery.rows_eq hf hp)
    exact congrArg (·.mapError QueryError.session) hrows

end

section
variable (x : Executor) {s : Session} (spec : Option Specification)

theorem gives_augment (s : Session) (c : CriteriaContext) :
    Run.Gives (x.augment c) s ((x.augmented c).mapError .augmentation) := by
  unfold augment augmented
  cases x.config.augmentationEnabled with
  | false => exact .after_note (.note _ _) (.pure c)
  | true =>
    refine .after_note (fun o ho => ⟨rfl, ?_⟩) (.lift _)
    exact (o.noteApplied_session _ _ _).trans ho

theorem gives_build (s : Session) (result : ResultKind) (mode : QueryMode) :
    Run.Gives (x.build result spec mode) s (x.built result spec mode) := by
  refine (x.gives_augment s (x.contextOf result spec mode)).bind fun c _ => ?_
  unfold rooted
  cases c.root with
  | none => exact .throw _
  | some root => exact .pure _

theorem gives_prepare (s : Session) (event : Event) (note : Metrics → Metrics) (q : Query) :
    Run.Gives (x.prepare event note q) s (x.prepared s q) := by
  have hrest : Run.Gives (do
      Run.count note
      let s := (← get).session
      return x.withMethod s (← Run.ofSession (s.prepare q))) s (x.prepared s q) := by
    refine .after_note (.count note) (.get_bind fun o ho => ?_)
    rw [ho]
    exact (Run.Gives.ofSession (s.prepare q)).map (x.withMethod s)
  unfold prepare
  split
  · exact .after_note (.note _ _) hrest
  · exact hrest

theorem gives_query (s : Session) (sorting : Option Sorting) : Run.Gives (x.query spec sorting) s
    (x.built .entity spec .find >>= fun b => x.prepared s (selected sorting b.1 b.2)) := by
  refine (x.gives_build spec s .entity .find).bind fun b _ => ?_
  cases sorting with
  | none => exact x.gives_prepare s _ _ _
  | some sorting => exact x.gives_prepare s _ _ _

theorem gives_countQuery (s : Session) (mode : QueryMode) : Run.Gives (x.countQuery spec mode) s
    (x.built .long spec mode >>= fun b => x.prepared s (counted b.1 b.2)) :=
  (x.gives_build spec s .long mode).bind fun _ _ => x.gives_prepare s _ _ _

theorem gives_rows (hs : s.answers = none) (hf : s.store.failure = none)
    (sorting : Option Sorting) :
    Run.Gives (x.query spec sorting >>= Run.rows) s (x.built .entity spec .find >>= fun b =>
      (execute s.store.tables (selected sorting b.1 b.2) []).mapError .session) := by
  have hrows := (x.gives_query spec s sorting).bind fun p _ => Run.Gives.rows (q := p) hf
  simpa only [bind_assoc, prepared_bind_rows hs hf] using hrows

theorem gives_found {α : Type} (hs : s.answers = none) (hf : s.store.failure = none)
    (decode : Decode α) (sorting : Option Sorting) : Run.Gives (x.found decode spec sorting) s
      (x.built .entity spec .find >>= fun b =>
        (execute s.store.tables (selected sorting b.1 b.2) [] >>= Decode.rows decode).mapError
          .session) := by
  have hfound := (x.gives_rows spec hs hf sorting).bind
    fun vs _ => Run.Gives.ofSession (Decode.rows decode vs)
  simpa only [found, bind_assoc, bind_mapError] using hfound

theorem gives_runCount (hf : s.store.failure = none) (p : PreparedQuery) :
    Run.Gives (x.runCount p) s ((p.rows s.store).1.mapError .session >>= summed) :=
  (Run.Gives.rows hf).bind fun _ _ => (Run.Gives.ofSession _).bind fun counts _ =>
    x.gives_total s counts

theorem gives_count (hs : s.answers = none) (hf : s.store.failure = none) (mode : QueryMode) :
    Run.Gives (x.count spec mode) s (x.built .long spec mode >>= fun b =>
      (execute s.store.tables (counted b.1 b.2) []).mapError .session >>= summed) := by
  have hcount := (x.gives_countQuery spec s mode).bind fun p _ => x.gives_runCount hf p
  have hrun : ∀ q, (x.prepared s q >>= fun p =>
      (p.rows s.store).1.mapError QueryError.session >>= summed) =
        (execute s.store.tables q []).mapError .session >>= summed := by
    intro q
    rw [← bind_assoc, prepared_bind_rows hs hf]
  simpa only [count, bind_assoc, hrun] using hcount

end

end Executor

end EntityQuery
