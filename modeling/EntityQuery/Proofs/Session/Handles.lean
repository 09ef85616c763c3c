import EntityQuery.Proofs.Grammar.Register
import EntityQuery.Proofs.Session.History
import EntityQuery.Proofs.Criteria.Aliases
/-! The parameters of a query that is prepared from text: one handle for each name that the text
writes, under which values are bound and found wanting. -/
namespace EntityQuery
open Criteria Evaluation QueryText

/-- Prepares a query from text, its parameters under the identities of a supply. -/
def Session.prepareTextIn (s : Session) (supply : Supply) (text : String) :
    Except SessionError PreparedQuery :=
  match s.answers with
  | some rows => .ok ⟨.fixed rows, none, []⟩
  | none =>
    match Statement.registered supply text.toList with
    | .error cause => .error (.malformedQuery cause)
    | .ok statement => do
      validate s.store.tables statement.query
      return ⟨.stored statement.query (some text) statement.named [], none, []⟩

theorem Session.prepareTextIn_byNameAlone (s : Session) (text : String) :
    s.prepareTextIn byNameAlone text = s.prepareText text := by
  cases ha : s.answers with
  | some rows => simp only [prepareTextIn, prepareText, ha]
  | none =>
    cases hst : Statement.ofText text.toList <;>
      simp only [prepareTextIn, prepareText, ha, Statement.registered_byNameAlone, hst]

theorem Session.prepareTextIn_eq_ok {s : Session} (ha : s.answers = none) {supply : Supply}
    {text : String} {st : Statement} (hst : Statement.registered supply text.toList = .ok st)
    {p : PreparedQuery} (hp : s.prepareTextIn supply text = .ok p) :
    Valid s.store.tables st.query ∧
      p = ⟨.stored st.query (some text) st.named [], none, []⟩ := by
  rw [prepareTextIn, ha, hst] at hp
  obtain ⟨⟨⟩, hvalid, hp⟩ := bind_eq_ok_iff.1 hp
  exact ⟨validate_eq_ok_iff.1 hvalid, (Except.ok.inj hp).symm⟩

/-- Parameters that take any value, told apart by identity and by name. -/
structure Handles (named : List Parameter) : Prop where
  any : ∀ p ∈ named, p.type = .any
  ids : ∀ p ∈ named, ∀ r ∈ named, p.id = r.id → p = r
  names : ∀ p ∈ named, ∀ r ∈ named, p.name = r.name → p = r

theorem handles_of_distinct {supply : Supply} (hd : supply.Distinct) (names : List String) :
    Handles (names.eraseDups.map (handle supply names)) := by
  have hmem : ∀ p ∈ names.eraseDups.map (handle supply names),
      ∃ n ∈ names, handle supply names n = p := by
    intro p hp
    obtain ⟨n, hn, rfl⟩ := List.mem_map.1 hp
    exact ⟨n, by simpa using hn, rfl⟩
  refine ⟨fun p hp => ?_, fun p hp r hr he => ?_, fun p hp r hr he => ?_⟩
  · obtain ⟨n, -, rfl⟩ := hmem p hp
    rfl
  · obtain ⟨n, hn, rfl⟩ := hmem p hp
    obtain ⟨m, -, rfl⟩ := hmem r hr
    rw [hd.handle_inj hn he]
  · obtain ⟨n, -, rfl⟩ := hmem p hp
    obtain ⟨m, -, rfl⟩ := hmem r hr
    rw [Option.some.inj (he : some n = some m)]

def Operation.Binds (p : Parameter) : Operation → Prop
  | .bind x _ => x.id = p.id
  | .bindNamed name _ => p.name = some name
  | _ => False

section
variable {named : List Parameter} {q : Query} {text : Option String} {b : Bindings}
  {p : PreparedQuery}

theorem find?_eq_some_of_unique {f : Parameter → Bool} {d : Parameter} (hd : d ∈ named)
    (hf : f d = true) (hsame : ∀ r ∈ named, f r = true → r = d) :
    named.find? f = some d := by
  obtain ⟨r, hr⟩ := Option.isSome_iff_exists.1 (List.find?_isSome.2 ⟨d, hd, hf⟩)
  rw [hr, hsame r (List.mem_of_find?_eq_some hr) (List.find?_some hr)]

theorem isSome_value?_cons (id other : ParameterId) (v : Value) (b : Bindings) :
    (Bindings.value? ((id, v) :: b) other).isSome ↔ id = other ∨ (b.value? other).isSome := by
  unfold Bindings.value?
  by_cases h : id = other <;> simp [h]

theorem PreparedQuery.bind_eq_ok (h : Handles named) (hplan : p.plan = .stored q text named b)
    (hq : q.parameters = named) {x d : Parameter} (hd : d ∈ named) (hid : x.id = d.id) (v : Value) :
    p.bind x v = .ok { p with plan := .stored q text named ((d.id, v) :: b) } := by
  have hfind : q.parameters.find? (·.id = x.id) = some d := by
    rw [hq]
    exact find?_eq_some_of_unique hd (by simp [hid]) fun r hr hid' =>
      h.ids r hr d hd ((of_decide_eq_true hid').trans hid)
  unfold bind
  rw [hplan]
  dsimp only
  rw [hfind]
  simp only [h.any d hd, ValueType.any_accepts, if_true]

theorem PreparedQuery.bind_eq_error (hplan : p.plan = .stored q text named b)
    (hq : q.parameters = named) {x : Parameter} (hx : ∀ d ∈ named, x.id ≠ d.id) (v : Value) :
    p.bind x v = .error (.unknownParameter x.label) := by
  have hfind : q.parameters.find? (·.id = x.id) = none := by
    rw [hq, List.find?_eq_none]
    intro d hd
    simpa using Ne.symm (hx d hd)
  unfold bind
  rw [hplan]
  dsimp only
  rw [hfind]

theorem PreparedQuery.bindNamed_eq_of_mem (h : Handles named)
    (hplan : p.plan = .stored q text named b) (hq : q.parameters = named) {d : Parameter}
    (hd : d ∈ named) {name : String} (hname : d.name = some name) (v : Value) :
    p.bindNamed name v = .ok { p with plan := .stored q text named ((d.id, v) :: b) } := by
  have hfind : named.find? (·.name = some name) = some d :=
    find?_eq_some_of_unique hd (by simp [hname]) fun r hr hname' =>
      h.names r hr d hd ((of_decide_eq_true hname').trans hname.symm)
  unfold bindNamed
  rw [hplan]
  dsimp only
  rw [hfind]
  exact bind_eq_ok h hplan hq hd rfl v

theorem PreparedQuery.bindNamed_eq_error (hplan : p.plan = .stored q text named b) {name : String}
    (hname : ∀ d ∈ named, d.name ≠ some name) (v : Value) :
    p.bindNamed name v = .error (.unknownParameter name) := by
  have hfind : named.find? (·.name = some name) = none := by
    rw [List.find?_eq_none]
    intro d hd
    simpa using hname d hd
  unfold bindNamed
  rw [hplan]
  dsimp only
  rw [hfind]

namespace Opened
variable {s : Opened}

theorem perform_binds (h : Handles named) (hplan : s.query.plan = .stored q text named b)
    (hq : q.parameters = named) (op : Operation) :
    ∃ b', (s.perform op).query.plan = .stored q text named b' ∧ ∀ p ∈ named,
      (b'.value? p.id).isSome ↔ op.Binds p ∨ (b.value? p.id).isSome := by
  cases op with
  | bind x v =>
    by_cases hx : ∃ d ∈ named, x.id = d.id
    · obtain ⟨d, hd, hid⟩ := hx
      refine ⟨(d.id, v) :: b, ?_, fun p hp => ?_⟩
      · show ((s.query.bind x v).toOption.getD s.query).plan = _
        rw [PreparedQuery.bind_eq_ok h hplan hq hd hid]
        rfl
      · rw [isSome_value?_cons, Operation.Binds, hid]
    · have hnone : ∀ d ∈ named, x.id ≠ d.id := fun d hd he => hx ⟨d, hd, he⟩
      refine ⟨b, ?_, fun p hp => ?_⟩
      · show ((s.query.bind x v).toOption.getD s.query).plan = _
        rw [PreparedQuery.bind_eq_error hplan hq hnone]
        exact hplan
      · simp [Operation.Binds, hnone p hp]
  | bindNamed name v =>
    by_cases hname : ∃ d ∈ named, d.name = some name
    · obtain ⟨d, hd, hname⟩ := hname
      refine ⟨(d.id, v) :: b, ?_, fun p hp => ?_⟩
      · show ((s.query.bindNamed name v).toOption.getD s.query).plan = _
        rw [PreparedQuery.bindNamed_eq_of_mem h hplan hq hd hname]
        rfl
      · have hsame : d.id = p.id ↔ p.name = some name := by
          refine ⟨fun he => ?_, fun he => ?_⟩
          · rw [← h.ids d hd p hp he, hname]
          · rw [h.names d hd p hp (hname.trans he.symm)]
        rw [isSome_value?_cons, Operation.Binds, hsame]
    · have hnone : ∀ d ∈ named, d.name ≠ some name := fun d hd he => hname ⟨d, hd, he⟩
      refine ⟨b, ?_, fun p hp => ?_⟩
      · show ((s.query.bindNamed name v).toOption.getD s.query).plan = _
        rw [PreparedQuery.bindNamed_eq_error hplan hnone]
        exact hplan
      · simp [Operation.Binds, hnone p hp]
  | _ => exact ⟨b, hplan, fun p _ => by simp [Operation.Binds]⟩

/-- Whatever is done, the handles with a value are those that were bound. -/
theorem foldl_binds (h : Handles named) (hplan : s.query.plan = .stored q text named b)
    (hq : q.parameters = named) (done : List Operation) :
    ∃ b', (done.foldl Opened.perform s).query.plan = .stored q text named b' ∧ ∀ p ∈ named,
      (b'.value? p.id).isSome ↔ (∃ op ∈ done, op.Binds p) ∨ (b.value? p.id).isSome := by
  induction done generalizing s b with
  | nil => exact ⟨b, hplan, fun p _ => by simp⟩
  | cons op done ih =>
    obtain ⟨b₁, hplan₁, hb₁⟩ := perform_binds h hplan hq op
    obtain ⟨b₂, hplan₂, hb₂⟩ := ih hplan₁
    refine ⟨b₂, hplan₂, fun p hp => ?_⟩
    rw [hb₂ p hp, hb₁ p hp, List.exists_mem_cons_iff, or_assoc, or_left_comm]

theorem exists_result_eq_unbound_iff (h : s.Runs q)
    (hplan : s.query.plan = .stored q text named b) :
    (∃ label, s.result = .error (.unboundParameter label)) ↔
      s.store.failure = none ∧ ∃ p ∈ q.parameters, ¬ (b.value? p.id).isSome := by
  have hbindings : s.query.bindings = b := by rw [PreparedQuery.bindings, hplan]
  cases hf : s.store.failure with
  | some reason =>
    have hinjected : s.result = .error (.injected reason) := by
      rw [Opened.result, PreparedQuery.rows, hplan]
      simp only [hf]
    simp [hinjected]
  | none =>
    rw [h.result_eq hf, hbindings]
    simp only [execute_eq_unbound_iff h.valid, true_and]
    constructor
    · rintro ⟨label, hlabel⟩
      obtain ⟨p, hp, -⟩ := Option.map_eq_some_iff.1 hlabel
      have hnone := List.find?_some (p := fun p : Parameter => (b.value? p.id).isNone) hp
      exact ⟨p, List.mem_of_find?_eq_some hp, by simpa using hnone⟩
    · rintro ⟨p, hp, hnone⟩
      have hsome : (q.parameters.find? fun p => (b.value? p.id).isNone).isSome :=
        List.find?_isSome.2 ⟨p, hp, by simpa using hnone⟩
      obtain ⟨r, hr⟩ := Option.isSome_iff_exists.1 hsome
      exact ⟨r.label, by rw [hr]; rfl⟩

end Opened

end

/-- A session prepares the queries whose parameters get their identities by name; the identities may
be any that differ when the places and the names do. In a text that the parser accepts, the names of
the parameters that it writes are the keys of its register, and each name has a handle of its own,
which all its occurrences share. The query has these handles for parameters, each once, in the order
of first occurrence. On the query that is prepared from the text, whatever has been done with it and
its store, each of the names takes every value and no other name takes one; and the query fails for
want of a value exactly as long as one of the names has none, unless a failure that waits in the
store comes first. -/
theorem Session.handles_of_names {supply : Supply} (hd : supply.Distinct) {text : String}
    {st : Statement} (h : Statement.registered supply text.toList = .ok st) :
    (∀ s : Session, s.prepareTextIn byNameAlone text = s.prepareText text) ∧
    ∃ (ts : List Token) (handle : String → Parameter), scan text.toList = .ok ts ∧
      (∀ n, (∃ p ∈ st.named, p.name = some n) ↔ .parameter n ∈ ts) ∧
      st.query.expressions.filterMap Expression.parameter? = (writtenNames ts).map handle ∧
      (∀ n, (handle n).name = some n) ∧
      (∀ n m, .parameter n ∈ ts → .parameter m ∈ ts → (handle n).id = (handle m).id → n = m) ∧
      st.named = (writtenNames ts).eraseDups.map handle ∧
      st.query.parameters = st.named ∧
      ∀ (s : Session) (p : PreparedQuery), s.answers = none → s.prepareTextIn supply text = .ok p →
        ∀ done : List Operation, let now := done.foldl Opened.perform ⟨s.store, p⟩
          (∀ n v, .parameter n ∈ ts → ∃ r, now.query.bindNamed n v = .ok r) ∧
          (∀ n v, .parameter n ∉ ts → now.query.bindNamed n v = .error (.unknownParameter n)) ∧
          ((∃ label, now.result = .error (.unboundParameter label)) ↔ now.store.failure = none ∧
            ∃ n, .parameter n ∈ ts ∧ ∀ op ∈ done, ¬ op.Binds (handle n)) := by
  obtain ⟨ts, q, hscan, hs, hquery, hnamed⟩ := Statement.registered_eq_ok_iff.1 h
  have hhandles := handles_of_distinct hd (writtenNames ts)
  have hinj : ∀ n ∈ writtenNames ts, ∀ m ∈ writtenNames ts,
      (handle supply (writtenNames ts) n).id = (handle supply (writtenNames ts) m).id → n = m :=
    fun n hn m _ he => hd.handle_inj hn he
  have hoccur : st.query.expressions.filterMap Expression.parameter? =
      (writtenNames ts).map (handle supply (writtenNames ts)) := by
    rw [hquery, hs.handles]
  have hparameters : st.query.parameters = st.named := by
    rw [Query.parameters, hoccur, hnamed, firstById_map hinj]
  have hmem : ∀ n, .parameter n ∈ ts → handle supply (writtenNames ts) n ∈ st.named := by
    intro n hn
    rw [hnamed]
    exact List.mem_map_of_mem (by simpa using mem_writtenNames.2 hn)
  have hkeys : ∀ p ∈ st.named, ∃ n, .parameter n ∈ ts ∧ handle supply (writtenNames ts) n = p := by
    intro p hp
    rw [hnamed] at hp
    obtain ⟨n, hn, rfl⟩ := List.mem_map.1 hp
    exact ⟨n, mem_writtenNames.1 (by simpa using hn), rfl⟩
  rw [← hnamed] at hhandles
  have hname : ∀ n, .parameter n ∉ ts → ∀ p ∈ st.named, p.name ≠ some n := by
    intro n hn p hp hname
    obtain ⟨m, hm, rfl⟩ := hkeys p hp
    exact hn (Option.some.inj hname ▸ hm)
  refine ⟨fun s => s.prepareTextIn_byNameAlone text, ts, handle supply (writtenNames ts), hscan,
    fun n => ⟨?_, fun hn => ⟨_, hmem n hn, rfl⟩⟩, hoccur, fun _ => rfl,
    fun n m hn hm => hinj n (mem_writtenNames.2 hn) m (mem_writtenNames.2 hm), hnamed,
    hparameters, ?_⟩
  · rintro ⟨p, hp, he⟩
    by_contra hn
    exact hname n hn p hp he
  intro s p ha hp done now
  obtain ⟨hvalid, rfl⟩ := prepareTextIn_eq_ok ha h hp
  let start : Opened := ⟨s.store, ⟨.stored st.query (some text) st.named [], none, []⟩⟩
  have hruns : start.Runs st.query := ⟨rfl, hvalid⟩
  obtain ⟨b, hplan, hb⟩ : ∃ b', now.query.plan = .stored st.query (some text) st.named b' ∧ _ :=
    Opened.foldl_binds (s := start) hhandles rfl hparameters done
  have hbound : ∀ p ∈ st.named, (b.value? p.id).isSome ↔ ∃ op ∈ done, op.Binds p := by
    intro p hp
    rw [hb p hp]
    simp [Bindings.value?]
  refine ⟨fun n v hn => ⟨_, PreparedQuery.bindNamed_eq_of_mem hhandles hplan hparameters (hmem n hn)
    rfl v⟩, fun n v hn => PreparedQuery.bindNamed_eq_error hplan (hname n hn) v, ?_⟩
  rw [Opened.exists_result_eq_unbound_iff (hruns.foldl done) hplan, hparameters]
  refine and_congr_right fun _ => ⟨?_, ?_⟩
  · rintro ⟨p, hp, hnone⟩
    obtain ⟨n, hn, rfl⟩ := hkeys p hp
    exact ⟨n, hn, fun op hop hbinds => hnone ((hbound _ hp).2 ⟨op, hop, hbinds⟩)⟩
  · rintro ⟨n, hn, hnone⟩
    refine ⟨_, hmem n hn, fun hsome => ?_⟩
    obtain ⟨op, hop, hbinds⟩ := (hbound _ (hmem n hn)).1 hsome
    exact hnone op hop hbinds

def numbered : Supply := fun i _ => .declared (toString i)

theorem distinct_numbered : numbered.Distinct :=
  fun _ _ _ _ hij _ he =>
    hij (append_toString_injective "" (congrArg ("" ++ ·) (ParameterId.declared.inj he)))

def repeatedQuery : Query where
  result := .entity
  roots := [⟨"E", "e"⟩]
  restriction := some (.or [
    .and [.comparison .eq (.path ⟨"e", some "x"⟩) (.parameter (parameterNamed "b")),
      .not (.comparison .lt (.path ⟨"e", some "y"⟩) (.parameter (parameterNamed "a")))],
    .like (.path ⟨"e", some "z"⟩) (.parameter (parameterNamed "b"))])

def repeatedTokens : List Token := [
  .word "from", .word "E", .word "e", .word "where", .word "e.x", .symbol (.comparison .eq),
  .parameter "b", .word "and", .word "not", .word "e.y", .symbol (.comparison .lt), .parameter "a",
  .word "or", .word "e.z", .word "like", .parameter "b"]

theorem scan_repeated :
    scan "from E e where e.x = :b and not e.y < :a or e.z like :b".toList = .ok repeatedTokens := by
  cbv

theorem states_repeated : States repeatedTokens repeatedQuery := by
  have hcondition : WhereClause (repeatedTokens.drop 3) repeatedQuery.restriction :=
    .present (by cbv) (.more (.more (.relation (.comparison (.name (by cbv)) .eq (.parameter _)))
      (by cbv) (.one (.not (by cbv) (.relation (.comparison (.name (by cbv)) .lt (.parameter _))))))
      (by cbv) (.one (.one (.relation (.like (.name (by cbv)) (by cbv) (.parameter _))))))
  have hparts : Parts repeatedQuery [] (.word "from") [.word "E", .word "e"]
      (repeatedTokens.drop 3) [] [] :=
    ⟨.absent, by cbv, .one (.intro .absent (by cbv) (by cbv) (by cbv)), List.nodup_singleton _,
      hcondition, .absent, .absent, rfl⟩
  exact .intro hparts

/-- A value for the name that is written twice is not enough. -/
theorem Session.handles_of_names_repeated :
    let s : Session := { store := { tables := [("E", [])] } }
    let text := "from E e where e.x = :b and not e.y < :a or e.z like :b"
    numbered.Distinct ∧ ∃ st p, Statement.registered numbered text.toList = .ok st ∧
      s.prepareTextIn numbered text = .ok p ∧
      st.named = [⟨.declared "0", .any, some "b"⟩, ⟨.declared "1", .any, some "a"⟩] ∧
      st.query.parameters = st.named ∧
      (∀ v, p.bindNamed "c" v = .error (.unknownParameter "c")) ∧
      ∃ label, (Opened.perform ⟨s.store, p⟩ (.bindNamed "b" .null)).result =
        .error (.unboundParameter label) := by
  intro s text
  let names := writtenNames repeatedTokens
  let st : Statement := ⟨repeatedQuery.mapParameters (replace numbered names),
    names.eraseDups.map (handle numbered names)⟩
  have hst : Statement.registered numbered text.toList = .ok st :=
    Statement.registered_eq_ok_iff.2 ⟨_, _, scan_repeated, states_repeated, rfl, rfl⟩
  have hp : s.prepareTextIn numbered text =
      .ok ⟨.stored st.query (some text) st.named [], none, []⟩ := by
    rw [prepareTextIn, hst]
    rfl
  obtain ⟨-, us, handle, hus, -, -, hname, -, -, hparameters, hrun⟩ :=
    handles_of_names distinct_numbered hst
  obtain rfl : us = repeatedTokens := Except.ok.inj (hus.symm.trans scan_repeated)
  refine ⟨distinct_numbered, st, _, hst, hp, by cbv, hparameters, fun v => ?_, ?_⟩
  · exact (hrun s _ rfl hp []).2.1 "c" v (by simp [repeatedTokens])
  · refine (hrun s _ rfl hp [.bindNamed "b" .null]).2.2.2 ⟨rfl, "a", by simp [repeatedTokens], ?_⟩
    simp [Operation.Binds, hname]

end EntityQuery
