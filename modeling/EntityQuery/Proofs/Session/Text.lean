import EntityQuery.Session.Basic
import EntityQuery.Proofs.Grammar.Content
import EntityQuery.Proofs.Grammar.Statement
import EntityQuery.Proofs.Evaluation.Condition
import EntityQuery.Augmentation.Basic
/-! Queries that a session prepares from text, and the values that are bound by name. -/
namespace EntityQuery
open Criteria Evaluation

namespace QueryText

section
variable {ts : List Token}

theorem Optional.parameter? {word : String} {flag : Bool} (h : Optional word ts flag) :
    ∀ t ∈ ts, t.parameter? = none := by
  cases h with
  | absent => simp
  | present h =>
    intro t ht
    obtain rfl := List.mem_singleton.1 ht
    exact Token.parameter?_of_isKeyword h

theorem SelectClause.parameter? {distinct : Bool} {s : Option Selection}
    (h : SelectClause ts distinct s) : ∀ t ∈ ts, t.parameter? = none := by
  cases h with
  | absent => simp
  | present hk hdistinct hs =>
    intro t ht
    rcases List.mem_cons.1 ht with rfl | ht
    · exact Token.parameter?_of_isKeyword hk
    rcases List.mem_append.1 ht with ht | ht
    · exact hdistinct.parameter? t ht
    cases hs with
    | source =>
      obtain rfl := List.mem_singleton.1 ht
      rfl
    | count hk hdistinct =>
      simp only [List.mem_cons, List.mem_append, List.not_mem_nil, or_false] at ht
      obtain rfl | rfl | ht | rfl | rfl := ht
      · exact Token.parameter?_of_isKeyword hk
      · rfl
      · exact hdistinct.parameter? t ht
      · rfl
      · rfl

theorem Source.parameter? {r : Root} (h : Source ts r) : ∀ t ∈ ts, t.parameter? = none := by
  obtain ⟨has, -, -, -⟩ := h
  intro t ht
  simp only [List.mem_cons, List.mem_append, List.not_mem_nil, or_false] at ht
  obtain rfl | ht | rfl := ht
  · rfl
  · exact has.parameter? t ht
  · rfl

theorem PathName.parameter? {e : Expression} (h : PathName ts e) :
    ∀ t ∈ ts, t.parameter? = none := by
  obtain ⟨-⟩ := h
  intro t ht
  obtain rfl := List.mem_singleton.1 ht
  rfl

theorem PathName.expression {e : Expression} (h : PathName ts e) : e.parameter? = none := by
  cases h
  rfl

theorem Ordered.parameter? {o : Order} (h : Ordered ts o) : ∀ t ∈ ts, t.parameter? = none := by
  cases h with
  | plain h => exact h.parameter?
  | asc h hk | desc h hk =>
    intro t ht
    rcases List.mem_append.1 ht with ht | ht
    · exact h.parameter? t ht
    · obtain rfl := List.mem_singleton.1 ht
      exact Token.parameter?_of_isKeyword hk

theorem Ordered.expression {o : Order} (h : Ordered ts o) : o.expression.parameter? = none := by
  cases h with
  | plain h | asc h | desc h => exact h.expression

theorem ByClause.parameter? {α : Type} {word : String} {item : List Token → α → Prop} {as : List α}
    (h : ByClause word item ts as) (hitem : ∀ ts a, item ts a → ∀ t ∈ ts, t.parameter? = none) :
    ∀ t ∈ ts, t.parameter? = none := by
  cases h with
  | absent => simp
  | present hk hb h =>
    intro t ht
    simp only [List.mem_cons] at ht
    obtain rfl | rfl | ht := ht
    · exact Token.parameter?_of_isKeyword hk
    · exact Token.parameter?_of_isKeyword hb
    · exact h.tokens hitem rfl t ht

theorem States.writtenParameters_eq {q : Query} (h : States ts q) :
    writtenParameters ts = q.expressions.filterMap Expression.parameter? := by
  obtain ⟨hselect, hk, hsources, -, hcondition, hgroups, horders, -⟩ := h
  have hgroup : q.groupBy.filterMap Expression.parameter? = [] :=
    List.filterMap_eq_nil_iff.2 (hgroups.items fun _ _ h => h.expression)
  have horder : (q.orders.map (·.expression)).filterMap Expression.parameter? = [] := by
    refine List.filterMap_eq_nil_iff.2 fun e he => ?_
    obtain ⟨o, ho, rfl⟩ := List.mem_map.1 he
    exact horders.items (P := fun o => o.expression.parameter? = none)
      (fun _ _ h => h.expression) o ho
  rw [Query.expressions, List.filterMap_append, List.filterMap_append, hgroup,
    horder, List.append_nil, List.append_nil, writtenParameters_append,
    writtenParameters_eq_nil hselect.parameter?,
    writtenParameters_cons_of_none (Token.parameter?_of_isKeyword hk), writtenParameters_append,
    writtenParameters_eq_nil (hsources.tokens (fun _ _ h => h.parameter?) rfl),
    writtenParameters_append, writtenParameters_append,
    writtenParameters_eq_nil (hgroups.parameter? fun _ _ h => h.parameter?),
    writtenParameters_eq_nil (horders.parameter? fun _ _ h => h.parameter?), List.append_nil,
    List.append_nil, List.nil_append, List.nil_append]
  generalize q.restriction = p at hcondition
  cases hcondition with
  | absent => rfl
  | present hk h =>
    rw [writtenParameters_cons_of_none (Token.parameter?_of_isKeyword hk), h.parameters]
    dsimp only
    rw [expressions_joined_or]

theorem States.parameters {q : Query} (h : States ts q) :
    Query.firstById (writtenParameters ts) = q.parameters := by
  rw [h.writtenParameters_eq, Query.parameters]

theorem mem_writtenParameters {p : Parameter} :
    p ∈ writtenParameters ts ↔ ∃ name, .parameter name ∈ ts ∧ parameterNamed name = p := by
  rw [writtenParameters, List.mem_map]
  refine exists_congr fun name => and_congr_left fun _ => ?_
  rw [List.mem_filterMap]
  constructor
  · rintro ⟨t, ht, he⟩
    cases t with
    | parameter n =>
      cases he
      exact ht
    | _ => cases he
  · intro h
    exact ⟨_, h, rfl⟩

theorem States.mem_parameters_iff {q : Query} (h : States ts q) {p : Parameter} :
    p ∈ q.parameters ↔ ∃ name, .parameter name ∈ ts ∧ parameterNamed name = p := by
  rw [← h.parameters, ← mem_writtenParameters]
  constructor
  · exact Query.mem_of_mem_firstById
  · intro hp
    obtain ⟨x, hx, hid⟩ := Query.exists_mem_firstById hp
    obtain ⟨n, -, rfl⟩ := mem_writtenParameters.1 (Query.mem_of_mem_firstById hx)
    obtain ⟨m, -, rfl⟩ := mem_writtenParameters.1 hp
    obtain rfl : n = m := ParameterId.named.inj hid
    exact hx

theorem Statement.ofText_eq_ok_iff {text : List Char} {st : Statement} :
    Statement.ofText text = .ok st ↔
      ∃ ts, scan text = .ok ts ∧ States ts st.query ∧ st.named = st.query.parameters := by
  unfold Statement.ofText
  constructor
  · intro h
    obtain ⟨ts, hts, h⟩ := bind_eq_ok_iff.1 h
    obtain ⟨q, hq, h⟩ := bind_eq_ok_iff.1 h
    cases h
    have hs := query_eq_ok_iff.1 hq
    exact ⟨ts, hts, hs, hs.parameters⟩
  · rintro ⟨ts, hts, hs, hnamed⟩
    obtain ⟨q, named⟩ := st
    obtain rfl : named = q.parameters := hnamed
    rw [hts, ok_bind, query_eq_ok_iff.2 hs, ok_bind, ← hs.parameters]
    rfl

end

end QueryText

namespace Session
variable {s : Session} {text : String} {p : PreparedQuery}

theorem prepareText_eq_ok_iff (ha : s.answers = none) :
    s.prepareText text = .ok p ↔ ∃ ts q, QueryText.scan text.toList = .ok ts ∧
      QueryText.States ts q ∧ Valid s.store.tables q ∧
      p = ⟨.stored q (some text) q.parameters [], none, []⟩ := by
  unfold prepareText
  rw [ha]
  dsimp only
  constructor
  · intro h
    split at h
    · cases h
    · rename_i st hst
      obtain ⟨ts, hts, hs, hnamed⟩ := QueryText.Statement.ofText_eq_ok_iff.1 hst
      obtain ⟨⟨⟩, hv, h⟩ := bind_eq_ok_iff.1 h
      cases h
      exact ⟨ts, _, hts, hs, validate_eq_ok_iff.1 hv, by rw [hnamed]⟩
  · rintro ⟨ts, q, hts, hs, hv, rfl⟩
    have hst : QueryText.Statement.ofText text.toList = .ok ⟨q, q.parameters⟩ :=
      QueryText.Statement.ofText_eq_ok_iff.2 ⟨ts, hts, hs, rfl⟩
    rw [hst]
    dsimp only
    rw [validate_eq_ok_iff.2 hv]
    rfl

end Session

section
variable {p : PreparedQuery} {q : Query} {text : Option String} {b : Bindings}
  {ts : List QueryText.Token}

theorem PreparedQuery.bindNamed_eq_ok (h : p.plan = .stored q text q.parameters b)
    (hs : QueryText.States ts q) {name : String} (hn : .parameter name ∈ ts) (v : Value) :
    p.bindNamed name v = .ok { p with plan := .stored q text q.parameters ((.named name, v) :: b) } := by
  have hmem : QueryText.parameterNamed name ∈ q.parameters := hs.mem_parameters_iff.2 ⟨_, hn, rfl⟩
  have hfind : ∀ f : Parameter → Bool, f (QueryText.parameterNamed name) = true →
      (∀ n, f (QueryText.parameterNamed n) = true → n = name) →
      q.parameters.find? f = some (QueryText.parameterNamed name) := by
    intro f hf hinj
    obtain ⟨x, hx⟩ := Option.isSome_iff_exists.1 (List.find?_isSome.2 ⟨_, hmem, hf⟩)
    obtain ⟨n, -, rfl⟩ := hs.mem_parameters_iff.1 (List.mem_of_find?_eq_some hx)
    rw [hx, hinj n (List.find?_some hx)]
  have hname := hfind (fun x => x.name = some name) (by simp [QueryText.parameterNamed])
    (by simp [QueryText.parameterNamed])
  have hid := hfind (fun x => x.id = (QueryText.parameterNamed name).id)
    (by simp) (by simp [QueryText.parameterNamed])
  unfold bindNamed
  rw [h]
  dsimp only
  rw [hname]
  dsimp only
  unfold bind
  rw [h]
  dsimp only
  rw [hid]
  simp [QueryText.parameterNamed]

theorem TextContext.bindAll_plan {p' : PreparedQuery} {named : List Parameter}
    {values : List (String × Value)} (h : bindAll p values = .ok p')
    (hp : p.plan = .stored q text named b) : ∃ b', p'.plan = .stored q text named b' := by
  induction values generalizing p b with
  | nil =>
    cases h
    exact ⟨b, hp⟩
  | cons x values ih =>
    obtain ⟨name, v⟩ := x
    obtain ⟨r, hr, h⟩ := bind_eq_ok_iff.1 h
    suffices hplan : ∃ b', r.plan = .stored q text named b' by
      obtain ⟨b', hplan⟩ := hplan
      exact ih h hplan
    unfold PreparedQuery.bindNamed PreparedQuery.bind at hr
    rw [hp] at hr
    dsimp only at hr
    split at hr
    · cases hr
    · split at hr
      · cases hr
      · split at hr
        · cases hr
          exact ⟨_, rfl⟩
        · cases hr

theorem TextContext.text_eq_ok {s : Session} {c : TextContext} {t : String} {named : List Parameter}
    (hm : s.provider = .memory) (h : c.query.plan = .stored q (some t) named b) :
    c.text s = .ok t := by
  unfold TextContext.text
  rw [hm]
  simp only [Provider.canExtract, Provider.textOf, h]
  rfl

/-- An augmentation succeeds when an alias is found and the new text is accepted and bound. -/
theorem TextContext.augment_eq_ok_iff {s : Session} {c c' : TextContext}
    {source condition : String} {parameters : Dictionary Value} :
    c.augment s source condition parameters = .ok c' ↔ ∃ text a p r, c.text s = .ok text ∧
      QueryText.detectAlias? text.toList = some a ∧
      s.prepareText (String.ofList (QueryText.addClauses text.toList source.toList
        (fillAlias a condition.toList))) = .ok p ∧
      bindAll p parameters = .ok r ∧ { c with query := r } = c' := by
  unfold augment
  constructor
  · intro h
    obtain ⟨text, htext, h⟩ := bind_eq_ok_iff.1 h
    split at h
    · cases h
    · rename_i a ha
      obtain ⟨p, hp, h⟩ := bind_eq_ok_iff.1 h
      obtain ⟨r, hr, h⟩ := bind_eq_ok_iff.1 h
      exact ⟨text, a, p, r, htext, ha, mapError_eq_ok_iff.1 hp, mapError_eq_ok_iff.1 hr,
        Except.ok.inj h⟩
  · rintro ⟨text, a, p, r, htext, ha, hp, hr, rfl⟩
    rw [htext, ok_bind, ha]
    dsimp only
    rw [mapError_eq_ok_iff.2 hp, ok_bind, mapError_eq_ok_iff.2 hr]
    rfl

theorem TextContext.bindAll_eq_ok (hs : QueryText.States ts q) {values : List (String × Value)}
    (hv : ∀ v ∈ values, .parameter v.1 ∈ ts) (h : p.plan = .stored q text q.parameters b) :
    ∃ p' b', bindAll p values = .ok p' ∧ p'.plan = .stored q text q.parameters b' := by
  induction values generalizing p b with
  | nil => exact ⟨p, b, rfl, h⟩
  | cons x values ih =>
    obtain ⟨name, v⟩ := x
    have hbind := PreparedQuery.bindNamed_eq_ok h hs (hv _ (.head _)) v
    obtain ⟨p', b', hp', hplan⟩ := ih (p := { p with plan := _ }) (fun x hx => hv x (.tail _ hx)) rfl
    refine ⟨p', b', ?_, hplan⟩
    rw [bindAll, hbind, ok_bind]
    exact hp'

end

end EntityQuery
