import EntityQuery.Proofs.Evaluation.Alike
import EntityQuery.Proofs.Evaluation.Tuples
import EntityQuery.Proofs.Rendering.Names
import EntityQuery.Proofs.Session.Handles
/-! The values that a query is run with. Of the calls that give values those that are refused leave
no trace, and of the others the last one for a parameter counts, by whichever way it came. -/
namespace EntityQuery
open Criteria Evaluation QueryText

theorem Criteria.Query.eq_of_mem_parameters {q : Query} {d d' : Parameter} (h : d ∈ q.parameters)
    (h' : d' ∈ q.parameters) (hid : d.id = d'.id) : d = d' :=
  List.inj_on_of_nodup_map (nodup_firstById _) h h' hid

namespace Evaluation
variable {q : Query} {b b' : Bindings}

theorem resolve_congr (h : ∀ x ∈ q.parameters, b.value? x.id = b'.value? x.id) {e : Expression}
    (he : e ∈ q.expressions) (c : Combination) : resolve b c e = resolve b' c e := by
  cases e with
  | literal v => rfl
  | path p => rfl
  | parameter p =>
    obtain ⟨x, hx, hid⟩ := Query.exists_mem_parameters he
    rw [resolve, resolve, ← hid, h x hx]

/-- A query is run with the values of its parameters and no others. -/
theorem execute_congr (h : ∀ x ∈ q.parameters, b.value? x.id = b'.value? x.id) (tables : Tables) :
    execute tables q b = execute tables q b' := by
  have hresolve : ∀ e ∈ q.expressions, ∀ c, resolve b c e = resolve b' c e :=
    fun e he => resolve_congr h he
  have hunbound : (q.parameters.find? fun x => (b.value? x.id).isNone) =
      q.parameters.find? fun x => (b'.value? x.id).isNone :=
    List.find?_congr fun x hx => by rw [h x hx]
  have hmatching : ∀ cs, matching b q.restriction cs = matching b' q.restriction cs := by
    intro cs
    cases hp : q.restriction with
    | none => rfl
    | some p =>
      refine satisfying_congr (fun c => satisfies_congr fun e he => ?_) cs
      rw [hresolve e (by simp [Query.expressions, hp, he]) c]
      exact .refl _
  have hsorted : ∀ cs, sorted b q.orders cs = sorted b' q.orders cs :=
    sorted_congr fun o ho => hresolve _ (List.mem_append_right _ (List.mem_map_of_mem ho))
  have hgrouped : ∀ cs, grouped b q.groupBy cs = grouped b' q.groupBy cs :=
    grouped_congr fun e he => hresolve e (List.mem_append_left _ (List.mem_append_right _ he))
  simp only [execute, hunbound, hmatching, hsorted, hgrouped]

end Evaluation

def PreparedQuery.named (p : PreparedQuery) : List Parameter :=
  match p.plan with
  | .stored _ _ named _ => named
  | .fixed _ => []

/-- Why a value is refused where a parameter was looked for: there is none, or the type that is
declared for it does not accept the value. -/
def refusal? (unknown : SessionError) (v : Value) : Option Parameter → Option SessionError
  | none => some unknown
  | some d => if d.type.accepts v then none else some (.invalidParameterValue d.label d.type)

theorem refusal?_find?_iff {ps : List Parameter} {f : Parameter → Prop} [DecidablePred f]
    (honly : ∀ d ∈ ps, ∀ d' ∈ ps, f d → f d' → d = d') {unknown e : SessionError} {v : Value} :
    refusal? unknown v (ps.find? (f ·)) = some e ↔ (e = unknown ∧ ∀ d ∈ ps, ¬ f d) ∨
      ∃ d ∈ ps, f d ∧ d.type.accepts v = false ∧ e = .invalidParameterValue d.label d.type := by
  cases hx : ps.find? (f ·) with
  | none =>
    have hnone : ∀ d ∈ ps, ¬ f d := by simpa using hx
    constructor
    · intro h
      exact .inl ⟨(Option.some.inj h).symm, hnone⟩
    · rintro (⟨rfl, -⟩ | ⟨d, hd, hf, -⟩)
      · rfl
      · exact absurd hf (hnone d hd)
  | some d =>
    have hd := List.mem_of_find?_eq_some hx
    have hf : f d := by simpa using List.find?_some hx
    constructor
    · intro h
      cases haccepts : d.type.accepts v with
      | true => simp [refusal?, haccepts] at h
      | false => exact .inr ⟨d, hd, hf, haccepts, by simpa [refusal?, haccepts] using h.symm⟩
    · rintro (⟨-, hnone⟩ | ⟨d', hd', hf', haccepts, rfl⟩)
      · exact absurd hf (hnone d hd)
      · obtain rfl := honly d' hd' d hd hf' hf
        simp [refusal?, haccepts]

namespace PreparedQuery
variable {p r : PreparedQuery} {q : Query} {text : Option String} {named : List Parameter}
  {b : Bindings}

theorem plan_bind (hplan : p.plan = .stored q text named b) {x : Parameter} {v : Value}
    (h : p.bind x v = .ok r) : r.plan = .stored q text named ((x.id, v) :: b) := by
  unfold bind at h
  rw [hplan] at h
  dsimp only at h
  cases hx : q.parameters.find? (·.id = x.id) with
  | none =>
    rw [hx] at h
    cases h
  | some d =>
    have hid : d.id = x.id := by simpa using List.find?_some hx
    rw [hx] at h
    dsimp only at h
    split at h
    · cases h
      rw [hid]
    · cases h

theorem bindNamed_eq (hplan : p.plan = .stored q text named b) (name : String) (v : Value) :
    p.bindNamed name v = match named.find? (·.name = some name) with
      | none => .error (.unknownParameter name)
      | some x => p.bind x v := by
  obtain ⟨plan, lock, hints⟩ := p
  obtain rfl : plan = .stored q text named b := hplan
  rfl

end PreparedQuery

def Operation.gives : Operation → Bool
  | .bind _ _ | .bindNamed _ _ => true
  | _ => false

namespace Opened

def Refuses (s : Opened) (e : SessionError) : Operation → Prop
  | .bind x v => s.query.bind x v = .error e
  | .bindNamed name v => s.query.bindNamed name v = .error e
  | _ => False

def accepted? (s : Opened) : Operation → Option (ParameterId × Value)
  | .bind x v => (s.query.bind x v).toOption.map fun _ => (x.id, v)
  | .bindNamed name v => do
    let x ← s.query.named.find? (·.name = some name)
    (s.query.bindNamed name v).toOption.map fun _ => (x.id, v)
  | _ => none

/-- What the calls of a history give that succeed, in their order. -/
def accepted (s : Opened) : List Operation → List (ParameterId × Value)
  | [] => []
  | op :: rest => (s.accepted? op).toList ++ (s.perform op).accepted rest

/-- The last value that a history gives to a parameter. -/
def lastAccepted (s : Opened) (done : List Operation) (id : ParameterId) : Option Value :=
  Bindings.value? (s.accepted done).reverse id

section
variable {s : Opened} {q : Query} {text : Option String} {named : List Parameter} {b : Bindings}

theorem perform_of_refuses {e : SessionError} {op : Operation} (h : s.Refuses e op) :
    s.perform op = s := by
  cases op with
  | bind x v => rw [perform, show s.query.bind x v = .error e from h]; rfl
  | bindNamed name v => rw [perform, show s.query.bindNamed name v = .error e from h]; rfl
  | _ => exact h.elim

theorem plan_perform (hplan : s.query.plan = .stored q text named b) (op : Operation) :
    (s.perform op).query.plan = .stored q text named ((s.accepted? op).toList ++ b) := by
  cases op with
  | bind x v =>
    unfold perform accepted?
    dsimp only
    cases hr : s.query.bind x v with
    | error e => exact hplan
    | ok r => exact PreparedQuery.plan_bind hplan hr
  | bindNamed name v =>
    have hnamed : s.query.named = named := by rw [PreparedQuery.named, hplan]
    unfold perform accepted?
    dsimp only
    rw [hnamed, PreparedQuery.bindNamed_eq hplan]
    cases named.find? (·.name = some name) with
    | none => exact hplan
    | some x =>
      dsimp only
      cases hr : s.query.bind x v with
      | error e => exact hplan
      | ok r => exact PreparedQuery.plan_bind hplan hr
  | _ => exact hplan

/-- After a history the values are those that were taken in it, the last first. -/
theorem plan_foldl (hplan : s.query.plan = .stored q text named b) (done : List Operation) :
    (done.foldl perform s).query.plan =
      .stored q text named ((s.accepted done).reverse ++ b) := by
  induction done generalizing s b with
  | nil => exact hplan
  | cons op rest ih =>
    have hone : (s.accepted? op).toList.reverse = (s.accepted? op).toList := by
      cases s.accepted? op <;> rfl
    rw [List.foldl_cons, ih (plan_perform hplan op), accepted, List.reverse_append, hone,
      List.append_assoc]

theorem store_perform_of_gives {op : Operation} (h : op.gives = true) :
    (s.perform op).store = s.store := by
  cases op with
  | bind | bindNamed => rfl
  | _ => cases h

/-- What an operation does to the store does not depend on the values: a run uses up a failure that
waits, whatever the query is run with. -/
theorem store_perform_congr {t : Opened} {b' : Bindings} (hstore : s.store = t.store)
    (hs : s.query.plan = .stored q text named b) (ht : t.query.plan = .stored q text named b')
    (op : Operation) : (s.perform op).store = (t.perform op).store := by
  cases op with
  | run =>
    simp only [perform, PreparedQuery.rows, hs, ht, hstore]
    cases t.store.failure <;> rfl
  | _ => simp only [perform, hstore]

theorem store_foldl {t : Opened} {b' : Bindings} (hstore : s.store = t.store)
    (hs : s.query.plan = .stored q text named b) (ht : t.query.plan = .stored q text named b')
    (done : List Operation) :
    (done.foldl perform s).store = ((done.filter (!·.gives)).foldl perform t).store := by
  -- The runs differ in what is bound, so the states of both are general.
  induction done generalizing s t b b' with
  | nil => exact hstore
  | cons op rest ih =>
    cases hgives : op.gives with
    | true =>
      rw [List.filter_cons_of_neg (by simp [hgives])]
      exact ih ((store_perform_of_gives hgives).trans hstore) (plan_perform hs op) ht
    | false =>
      rw [List.filter_cons_of_pos (by simp [hgives])]
      exact ih (store_perform_congr hstore hs ht op) (plan_perform hs op) (plan_perform ht op)

theorem result_eq_of_values (hplan : s.query.plan = .stored q text named b) {b' : Bindings}
    (h : ∀ x ∈ q.parameters, b'.value? x.id = b.value? x.id) :
    s.result = match s.store.failure with
      | some reason => .error (.injected reason)
      | none => execute s.store.tables q b' := by
  rw [execute_congr h, result, PreparedQuery.rows, hplan]
  cases s.store.failure <;> rfl

theorem refuses_bind_iff (hplan : s.query.plan = .stored q text named b) {e : SessionError}
    {x : Parameter} {v : Value} : s.Refuses e (.bind x v) ↔
      refusal? (.unknownParameter x.label) v (q.parameters.find? (·.id = x.id)) = some e := by
  unfold Refuses PreparedQuery.bind
  rw [hplan]
  dsimp only
  cases q.parameters.find? (·.id = x.id) with
  | none => simp [refusal?]
  | some d => cases haccepts : d.type.accepts v <;> simp [refusal?, haccepts]

theorem refuses_bindNamed_iff (hplan : s.query.plan = .stored q text named b)
    (hmem : ∀ d ∈ named, d ∈ q.parameters) {e : SessionError} {name : String} {v : Value} :
    s.Refuses e (.bindNamed name v) ↔
      refusal? (.unknownParameter name) v (named.find? (·.name = some name)) = some e := by
  rw [Refuses, PreparedQuery.bindNamed_eq hplan]
  cases hd : named.find? (·.name = some name) with
  | none => simp [refusal?]
  | some d =>
    have hlisted := hmem d (List.mem_of_find?_eq_some hd)
    have hfind : q.parameters.find? (·.id = d.id) = some d :=
      find?_eq_some_of_unique hlisted (by simp) fun d' hd' hid =>
        Query.eq_of_mem_parameters hd' hlisted (of_decide_eq_true hid)
    have hbind := refuses_bind_iff (e := e) (x := d) (v := v) hplan
    rwa [hfind] at hbind

end

end Opened

theorem parameters_of_registered {supply : Supply} (hd : supply.Distinct) {text : List Char}
    {st : Statement} (h : Statement.registered supply text = .ok st) :
    st.query.parameters = st.named ∧ Handles st.named := by
  obtain ⟨ts, q, -, hs, hquery, hnamed⟩ := Statement.registered_eq_ok_iff.1 h
  have hoccur : st.query.expressions.filterMap Expression.parameter? =
      (writtenNames ts).map (handle supply (writtenNames ts)) := by
    rw [hquery, hs.handles]
  refine ⟨?_, hnamed ▸ handles_of_distinct hd _⟩
  rw [Query.parameters, hoccur, hnamed]
  exact firstById_map fun n hn m _ he => hd.handle_inj hn he

namespace Session
variable {s : Session} {p : PreparedQuery}

theorem exists_plan_of_prepared (hs : s.answers = none)
    (hp : (∃ q, s.prepare q = .ok p) ∨
      ∃ supply text, Supply.Distinct supply ∧ s.prepareTextIn supply text = .ok p) :
    ∃ q text named, p.plan = .stored q text named [] ∧
      named = (if text.isSome then q.parameters else []) ∧
      ∀ d ∈ named, ∀ d' ∈ named, d.name = d'.name → d = d' := by
  rcases hp with ⟨q, hq⟩ | ⟨supply, text, hd, htext⟩
  · rw [prepare_eq hs, map_eq_ok_iff] at hq
    obtain ⟨⟨⟩, -, rfl⟩ := hq
    exact ⟨q, none, [], rfl, rfl, by simp⟩
  · cases hst : Statement.registered supply text.toList with
    | error e =>
      rw [prepareTextIn, hs, hst] at htext
      cases htext
    | ok st =>
      obtain ⟨-, rfl⟩ := prepareTextIn_eq_ok hs hst htext
      obtain ⟨hparameters, hhandles⟩ := parameters_of_registered hd hst
      exact ⟨st.query, some text, st.named, rfl, hparameters.symm, hhandles.names⟩

/-- Giving values is atomic and the last value counts. Whatever has been done with a query that a
session over stored rows has prepared, and with its store: a handle is refused exactly when the query
has no parameter of its identity, or declares a type for it that does not accept the value, and a
name exactly when the text writes no such parameter, or its type does not accept the value. What is
refused may as well not have been done, and what is taken changes nothing in the store. What the
query answers then is decided by the store and the last value that was taken for each of its
parameters. -/
theorem result_of_last_accepted (s : Session) (hs : s.answers = none) (p : PreparedQuery)
    (hp : (∃ q, s.prepare q = .ok p) ∨
      ∃ supply text, Supply.Distinct supply ∧ s.prepareTextIn supply text = .ok p) :
    let start : Opened := ⟨s.store, p⟩
    let now (done : List Operation) : Opened := done.foldl Opened.perform start
    ∃ q, p.criteria? = some q ∧ p.named = (if p.sourceText.isSome then q.parameters else []) ∧
      (∀ done e x v, (now done).Refuses e (.bind x v) ↔
        (e = .unknownParameter x.label ∧ ∀ d ∈ q.parameters, d.id ≠ x.id) ∨
          ∃ d ∈ q.parameters, d.id = x.id ∧ d.type.accepts v = false ∧
            e = .invalidParameterValue d.label d.type) ∧
      (∀ done e name v, (now done).Refuses e (.bindNamed name v) ↔
        (e = .unknownParameter name ∧ ∀ d ∈ p.named, d.name ≠ some name) ∨
          ∃ d ∈ p.named, d.name = some name ∧ d.type.accepts v = false ∧
            e = .invalidParameterValue d.label d.type) ∧
      (∀ done op more e, (now done).Refuses e op → now (done ++ op :: more) = now (done ++ more)) ∧
      (∀ done, (now done).store = (now (done.filter (!·.gives))).store) ∧
      (∀ done b, (∀ x ∈ q.parameters, b.value? x.id = start.lastAccepted done x.id) →
        (now done).result = match (now done).store.failure with
          | some reason => .error (.injected reason)
          | none => execute (now done).store.tables q b) ∧
      ∀ done done', (now done).store = (now done').store →
        (∀ x ∈ q.parameters, start.lastAccepted done x.id = start.lastAccepted done' x.id) →
          (now done).result = (now done').result := by
  intro start now
  obtain ⟨q, text, named, hplan, hnamed, honly⟩ := exists_plan_of_prepared hs hp
  have hmem : ∀ d ∈ named, d ∈ q.parameters := by
    rw [hnamed]
    split
    · exact fun d hd => hd
    · exact fun d hd => absurd hd List.not_mem_nil
  have hnow : ∀ done, (now done).query.plan =
      .stored q text named ((start.accepted done).reverse ++ []) := Opened.plan_foldl hplan
  have hresult : ∀ done b, (∀ x ∈ q.parameters, b.value? x.id = start.lastAccepted done x.id) →
      (now done).result = match (now done).store.failure with
        | some reason => .error (.injected reason)
        | none => execute (now done).store.tables q b := by
    intro done b hb
    refine Opened.result_eq_of_values (hnow done) fun x hx => ?_
    rw [List.append_nil]
    exact hb x hx
  refine ⟨q, by rw [PreparedQuery.criteria?, hplan], ?_, fun done e x v => ?_,
    fun done e name v => ?_, fun done op more e h => ?_, fun done => ?_, hresult,
    fun done done' hstore hlast => ?_⟩
  · rw [PreparedQuery.named, PreparedQuery.sourceText, hplan]
    exact hnamed
  · rw [Opened.refuses_bind_iff (hnow done)]
    exact refusal?_find?_iff fun d hd d' hd' hid hid' =>
      Query.eq_of_mem_parameters hd hd' (hid.trans hid'.symm)
  · rw [Opened.refuses_bindNamed_iff (hnow done) hmem,
      show p.named = named by rw [PreparedQuery.named, hplan]]
    exact refusal?_find?_iff fun d hd d' hd' hname hname' =>
      honly d hd d' hd' (hname.trans hname'.symm)
  · simp only [now, List.foldl_append, List.foldl_cons]
    exact congrArg (more.foldl Opened.perform) (Opened.perform_of_refuses h)
  · exact Opened.store_foldl rfl hplan hplan done
  · rw [hresult done _ fun _ _ => rfl, hresult done' _ hlast, hstore]

/-- A handle of another type is held to the type that is declared, and a text's names and handles
give values to the same parameters. -/
theorem result_of_last_accepted_either_way :
    let row (x : Int) : Value := .object [("x", .integer x), ("y", .integer x)]
    let s : Session := { store := { tables := [("E", [row 1, row 2])] } }
    let p₀ : Parameter := ⟨.declared "p", .integer, none⟩
    let q : Query := {
      result := .entity
      roots := [⟨"E", "e"⟩]
      restriction := some (.comparison .eq (.path ⟨"e", some "x"⟩) (.parameter p₀)) }
    let any (id : String) : Parameter := ⟨.declared id, .any, none⟩
    let text := "from E e where e.x = :b and not e.y < :a or e.z like :b"
    let done : List Operation :=
      [.bindNamed "b" (.integer 1), .bindNamed "a" .null, .run, .bind (any "0") (.integer 2)]
    let done' : List Operation := [.bind (any "0") .null, .bind (any "2") .null, .run,
      .bindNamed "b" (.integer 2), .bindNamed "c" .null, .bind (any "1") .null]
    (∃ p, s.prepare q = .ok p ∧ p.bind (any "p") (.string "1") =
        .error (.invalidParameterValue p₀.label .integer) ∧
      ([.bind (any "p") (.integer 1), .bind p₀ (.bool true)].foldl Opened.perform
        ⟨s.store, p⟩).result = .ok [row 1]) ∧
      ∃ p, s.prepareTextIn numbered text = .ok p ∧
        (done.foldl Opened.perform ⟨s.store, p⟩).result =
          (done'.foldl Opened.perform ⟨s.store, p⟩).result := by
  intro row s p₀ q any text done done'
  let names := writtenNames repeatedTokens
  let st : Statement := ⟨repeatedQuery.mapParameters (replace numbered names),
    names.eraseDups.map (handle numbered names)⟩
  have hst : Statement.registered numbered text.toList = .ok st :=
    Statement.registered_eq_ok_iff.2 ⟨_, _, scan_repeated, states_repeated, rfl, rfl⟩
  have htext : s.prepareTextIn numbered text =
      .ok ⟨.stored st.query (some text) st.named [], none, []⟩ := by
    rw [prepareTextIn, hst]
    rfl
  refine ⟨⟨_, rfl, ?_, ?_⟩, _, htext, ?_⟩
  · obtain ⟨_, hq, -, hbind, -⟩ := result_of_last_accepted s rfl _ (.inl ⟨q, rfl⟩)
    cases hq
    exact (hbind [] _ (any "p") (.string "1")).2
      (.inr ⟨p₀, by decide +kernel, rfl, rfl, rfl⟩)
  · obtain ⟨_, hq, -, -, -, -, -, hresult, -⟩ := result_of_last_accepted s rfl _ (.inl ⟨q, rfl⟩)
    cases hq
    rw [hresult _ [(p₀.id, .integer 1)] (List.forall_mem_singleton.2 rfl)]
    rfl
  · obtain ⟨_, hq, -, -, -, -, hstore, -, hsame⟩ :=
      result_of_last_accepted s rfl _ (.inr ⟨numbered, text, distinct_numbered, htext⟩)
    cases hq
    have hfilter : done.filter (!·.gives) = done'.filter (!·.gives) := rfl
    have hparameters : st.query.parameters = [⟨.declared "0", .any, some "b"⟩,
      ⟨.declared "1", .any, some "a"⟩] := by cbv
    refine hsame done done' (by rw [hstore done, hstore done', hfilter]) ?_
    rw [hparameters]
    exact List.forall_mem_cons.2 ⟨by cbv, List.forall_mem_singleton.2 (by cbv)⟩

end Session

end EntityQuery
