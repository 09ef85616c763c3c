import EntityQuery.QueryText.Register
import EntityQuery.Proofs.Session.Text
/-! What reading with a register comes to: the statement that is read without one, its parameters
replaced by those of the register, and the names that the tokens write entered in their order. -/
namespace EntityQuery
open Criteria

namespace Criteria

def Expression.mapParameters (f : Parameter → Parameter) : Expression → Expression
  | .parameter p => .parameter (f p)
  | e => e

mutual

def Predicate.mapParameters (f : Parameter → Parameter) : Predicate → Predicate
  | .comparison op l r => .comparison op (l.mapParameters f) (r.mapParameters f)
  | .like e p => .like (e.mapParameters f) (p.mapParameters f)
  | .isNull e => .isNull (e.mapParameters f)
  | .isNotNull e => .isNotNull (e.mapParameters f)
  | .and items => .and (Predicate.mapAll f items)
  | .or items => .or (Predicate.mapAll f items)
  | .not p => .not (Predicate.mapParameters f p)

def Predicate.mapAll (f : Parameter → Parameter) : List Predicate → List Predicate
  | [] => []
  | p :: rest => Predicate.mapParameters f p :: Predicate.mapAll f rest

end

def Query.mapParameters (f : Parameter → Parameter) (q : Query) : Query :=
  { q with
    restriction := q.restriction.map (·.mapParameters f)
    groupBy := q.groupBy.map (·.mapParameters f)
    orders := q.orders.map fun o => { o with expression := o.expression.mapParameters f } }

section
variable (f : Parameter → Parameter)

@[simp] theorem Expression.mapParameters_id (e : Expression) : e.mapParameters id = e := by
  cases e <;> rfl

theorem Expression.parameter?_mapParameters (e : Expression) :
    (e.mapParameters f).parameter? = e.parameter?.map f := by
  cases e <;> rfl

mutual

theorem Predicate.mapParameters_id (p : Predicate) : p.mapParameters id = p := by
  match p with
  | .comparison op l r => simp [Predicate.mapParameters]
  | .like e p => simp [Predicate.mapParameters]
  | .isNull e => simp [Predicate.mapParameters]
  | .isNotNull e => simp [Predicate.mapParameters]
  | .and items => rw [Predicate.mapParameters, Predicate.mapAll_id items]
  | .or items => rw [Predicate.mapParameters, Predicate.mapAll_id items]
  | .not p => rw [Predicate.mapParameters, Predicate.mapParameters_id p]

theorem Predicate.mapAll_id (ps : List Predicate) : Predicate.mapAll id ps = ps := by
  match ps with
  | [] => rfl
  | p :: rest => rw [Predicate.mapAll, Predicate.mapParameters_id p, Predicate.mapAll_id rest]

end

mutual

theorem Predicate.expressions_mapParameters (p : Predicate) :
    (p.mapParameters f).expressions = p.expressions.map (·.mapParameters f) := by
  match p with
  | .comparison op l r => rfl
  | .like e p => rfl
  | .isNull e => rfl
  | .isNotNull e => rfl
  | .and items => exact Predicate.expressionsOf_mapAll items
  | .or items => exact Predicate.expressionsOf_mapAll items
  | .not p => exact Predicate.expressions_mapParameters p

theorem Predicate.expressionsOf_mapAll (ps : List Predicate) :
    Predicate.expressionsOf (Predicate.mapAll f ps) =
      (Predicate.expressionsOf ps).map (·.mapParameters f) := by
  match ps with
  | [] => rfl
  | p :: rest =>
    rw [Predicate.mapAll, Predicate.expressionsOf, Predicate.expressions_mapParameters p,
      Predicate.expressionsOf_mapAll rest, Predicate.expressionsOf, List.map_append]

end

theorem Query.mapParameters_id (q : Query) : q.mapParameters id = q := by
  have hrestriction : (Predicate.mapParameters id) = id := funext Predicate.mapParameters_id
  obtain ⟨result, roots, selection, restriction, groupBy, orders, distinct⟩ := q
  simp [Query.mapParameters, hrestriction]

theorem Query.expressions_mapParameters (q : Query) :
    (q.mapParameters f).expressions = q.expressions.map (·.mapParameters f) := by
  unfold expressions
  cases h : q.restriction with
  | none => simp [mapParameters, h]
  | some p => simp [mapParameters, h, Predicate.expressions_mapParameters]

end

end Criteria

namespace QueryText

def writtenNames (ts : List Token) : List String := ts.filterMap Token.parameter?

namespace Register
variable {supply : Supply} {reg : Register} {name : String} {ρ : Parameter → Parameter}

def enterAll (supply : Supply) (reg : Register) (ts : List Token) : Register :=
  (writtenNames ts).foldl (enter supply) reg

theorem enterAll_append (reg : Register) (ts us : List Token) :
    reg.enterAll supply (ts ++ us) = (reg.enterAll supply ts).enterAll supply us := by
  rw [enterAll, writtenNames, List.filterMap_append, List.foldl_append]
  rfl

theorem enterAll_eq_self {ts : List Token} (h : ∀ t ∈ ts, t.parameter? = none) (reg : Register) :
    reg.enterAll supply ts = reg := by
  rw [enterAll, writtenNames, List.filterMap_eq_nil_iff.2 h]
  rfl

theorem isPrefix_enter (reg : Register) (name : String) : reg <+: reg.enter supply name := by
  unfold enter
  split
  · exact List.prefix_rfl
  · exact List.prefix_append _ _

theorem isPrefix_enterAll (reg : Register) (ts : List Token) : reg <+: reg.enterAll supply ts := by
  unfold enterAll
  generalize writtenNames ts = names
  induction names generalizing reg with
  | nil => exact List.prefix_rfl
  | cons name names ih => exact (isPrefix_enter reg name).trans (ih _)

theorem find?_mono {reg' : Register} (h : reg <+: reg') {p : Parameter}
    (hp : reg.find? name = some p) : reg'.find? name = some p := by
  obtain ⟨more, rfl⟩ := h
  unfold find? at hp ⊢
  rw [List.find?_append, hp, Option.some_or]

theorem find?_enter (reg : Register) (name : String) :
    (reg.enter supply name).find? name = some (reg.parameter supply name) := by
  unfold enter
  split
  · rename_i h
    obtain ⟨p, hp⟩ := Option.isSome_iff_exists.1 h
    rw [hp, parameter, hp]
    rfl
  · rename_i h
    rw [Option.not_isSome_iff_eq_none] at h
    have hnew : (reg.parameter supply name).name = some name := by rw [parameter, h]; rfl
    unfold find? at h ⊢
    rw [List.find?_append, h, Option.none_or]
    simp [hnew]

/-- The replacement of parameters that are read by name is that of the register. -/
def Agrees (ρ : Parameter → Parameter) (reg : Register) : Prop :=
  ∀ name p, reg.find? name = some p → ρ (parameterNamed name) = p

theorem Agrees.mono {reg' : Register} (h : Agrees ρ reg') (hp : reg <+: reg') :
    Agrees ρ reg := fun name p hname => h name p (find?_mono hp hname)

end Register

section
variable {α β : Type} (supply : Supply) (ρ : Parameter → Parameter)

/-- From `start` on, `x` reads what `y` reads, changed by `f`, and enters the names that the tokens
it reads write; what `y` cannot read `x` cannot read either. The replacement is that of the register
with all of `start` entered, so it is the same for every step. -/
def Follows (rest : α → List Token) (f : α → α) (start : List Token) (x : Entering α)
    (y : Except Malformed α) : Prop :=
  ∀ reg, Register.Agrees ρ (reg.enterAll supply start) →
    (∀ e, y = .error e → x.run reg = .error e) ∧
    ∀ a, y = .ok a → ∃ us, start = us ++ rest a ∧ x.run reg = .ok (f a, reg.enterAll supply us)

abbrev FollowsRule (f : α → α) {ts : List Token} (start : List Token)
    (x : Entering (Reading α ts)) (y : Rule α ts) : Prop :=
  Follows supply ρ Reading.rest (Reading.map f) start x y

end

section
variable {α β : Type} {supply : Supply} {ρ : Parameter → Parameter} {rest : α → List Token}
  {rest' : β → List Token} {f : α → α} {g : β → β} {start mid : List Token} {x : Entering α}
  {y : Except Malformed α}

theorem Follows.bind {k : α → Entering β} {l : α → Except Malformed β}
    (hx : Follows supply ρ rest f start x y)
    (hk : ∀ a, y = .ok a → Follows supply ρ rest' g (rest a) (k (f a)) (l a)) :
    Follows supply ρ rest' g start (x >>= k) (y >>= l) := by
  intro reg hρ
  obtain ⟨herror, hok⟩ := hx reg hρ
  cases hy : y with
  | error e =>
    refine ⟨fun e' he => ?_, fun _ hb => (nomatch hb)⟩
    cases he
    rw [StateT.run_bind, herror e hy, error_bind]
  | ok a =>
    obtain ⟨us, hus, hrun⟩ := hok a hy
    rw [hus, Register.enterAll_append] at hρ
    obtain ⟨herror', hok'⟩ := hk a hy _ hρ
    refine ⟨fun e he => ?_, fun b hb => ?_⟩
    · rw [StateT.run_bind, hrun, ok_bind, herror' e he]
    · obtain ⟨vs, hvs, hrun'⟩ := hok' b hb
      refine ⟨us ++ vs, by rw [hus, hvs, List.append_assoc], ?_⟩
      rw [StateT.run_bind, hrun, ok_bind, hrun', Register.enterAll_append]

theorem Follows.after {us : List Token} (hstart : start = us ++ mid)
    (hnone : ∀ t ∈ us, t.parameter? = none) (h : Follows supply ρ rest f mid x y) :
    Follows supply ρ rest f start x y := by
  intro reg hρ
  have hskip : ∀ vs, reg.enterAll supply (us ++ vs) = reg.enterAll supply vs := by
    intro vs
    rw [Register.enterAll_append, Register.enterAll_eq_self hnone]
  rw [hstart, hskip] at hρ
  refine (h reg hρ).imp_right fun hok a ha => ?_
  obtain ⟨vs, hvs, hrun⟩ := hok a ha
  exact ⟨us ++ vs, by rw [hstart, hvs, List.append_assoc], by rw [hrun, hskip]⟩

theorem Follows.lift
    (h : ∀ a, y = .ok a → f a = a ∧ ∃ us, start = us ++ rest a ∧ ∀ t ∈ us, t.parameter? = none) :
    Follows supply ρ rest f start (liftM y) y := by
  intro reg _
  cases hy : y with
  | error e => exact ⟨fun e' he => by cases he; rfl, fun _ ha => (nomatch ha)⟩
  | ok a =>
    refine ⟨fun _ he => (nomatch he), fun b hb => ?_⟩
    cases hb
    obtain ⟨hf, us, hus, hnone⟩ := h a hy
    refine ⟨us, hus, ?_⟩
    rw [Register.enterAll_eq_self hnone, hf]
    rfl

theorem Follows.pure {a b : α} (hstart : start = rest a) (hb : b = f a) :
    Follows supply ρ rest f start (pure b) (pure a) := by
  subst hb
  intro reg _
  refine ⟨fun _ he => (nomatch he), fun c hc => ?_⟩
  cases hc
  exact ⟨[], hstart, rfl⟩

theorem Follows.throw (e : Malformed) : Follows supply ρ rest f start (throw e) (.error e) :=
  fun _ _ => ⟨fun e' he => by cases he; rfl, fun _ ha => (nomatch ha)⟩

end

section
variable {supply : Supply} {ρ : Parameter → Parameter} {ts : List Token}

theorem follows_keyword (word : String) (ts : List Token) :
    FollowsRule supply ρ id ts (liftM (keyword word ts)) (keyword word ts) :=
  .lift fun r hr => by
    obtain ⟨t, ht, he⟩ := keyword_eq_ok hr
    exact ⟨rfl, [t], he, by simpa using Token.parameter?_of_isKeyword ht⟩

theorem follows_operand (ts : List Token) :
    FollowsRule supply ρ (·.mapParameters ρ) ts (operandIn supply ts) (operand ts) := by
  unfold operandIn
  split
  · rename_i name rest
    intro reg hρ
    refine ⟨fun _ he => (nomatch he), fun r hr => ?_⟩
    cases hr
    have hp : ρ (parameterNamed name) = reg.parameter supply name := by
      refine hρ.mono ?_ name _ (Register.find?_enter reg name)
      exact Register.isPrefix_enterAll (reg.enter supply name) rest
    refine ⟨[.parameter name], rfl, ?_⟩
    show _ = Except.ok (Reading.mk (Expression.parameter (ρ (parameterNamed name))) rest _, _)
    rw [hp]
    rfl
  · rename_i hts
    refine .lift fun ⟨v, rest, hlt⟩ hr => ?_
    obtain ⟨t, ht, he⟩ := operand_eq_ok hr
    cases ht with
    | parameter name => exact (hts name rest he).elim
    | _ => exact ⟨rfl, [_], he, by simp [Token.parameter?]⟩

theorem parameter?_of_keyword? {word : String} {r : Reading Unit ts}
    (h : keyword? word ts = some r) : ∃ us, ts = us ++ r.rest ∧ ∀ t ∈ us, t.parameter? = none := by
  obtain ⟨k, hk, he⟩ := keyword?_eq_some h
  exact ⟨[k], he, by simpa using Token.parameter?_of_isKeyword hk⟩

theorem parameter?_of_symbolAt? {c : Symbol} {r : Reading Unit ts}
    (h : symbolAt? c ts = some r) : ∃ us, ts = us ++ r.rest ∧ ∀ t ∈ us, t.parameter? = none :=
  ⟨[.symbol c], symbolAt?_eq_some h, by simp [Token.parameter?]⟩

theorem follows_relationTo (left : Expression) (ts : List Token) :
    FollowsRule supply ρ (·.mapParameters ρ) ts (relationToIn supply (left.mapParameters ρ) ts)
      (relationTo left ts) := by
  unfold relationToIn relationTo
  cases his : keyword? "is" ts with
  | some r =>
    obtain ⟨us, hus, hnone⟩ := parameter?_of_keyword? his
    obtain ⟨vs, hopt, hvs⟩ := optional_spec "not" r.rest
    refine .after hus hnone (.after hvs hopt.parameter? ?_)
    refine (follows_keyword "null" _).bind fun null _ => .pure rfl ?_
    cases (optional "not" r.rest).1 <;> rfl
  | none =>
  cases hnot : keyword? "not" ts with
  | some r =>
    obtain ⟨us, hus, hnone⟩ := parameter?_of_keyword? hnot
    refine .after hus hnone ((follows_keyword "like" _).bind fun like _ => ?_)
    exact (follows_operand _).bind fun pattern _ => .pure rfl rfl
  | none =>
  cases hlike : keyword? "like" ts with
  | some r =>
    obtain ⟨us, hus, hnone⟩ := parameter?_of_keyword? hlike
    refine .after hus hnone ?_
    exact (follows_operand _).bind fun pattern _ => .pure rfl rfl
  | none =>
    have hcomparison : FollowsRule supply ρ id ts (liftM (comparison ts)) (comparison ts) :=
      .lift fun op hop => ⟨rfl, [_], comparison_eq_ok hop, by simp [Token.parameter?]⟩
    refine hcomparison.bind fun op _ => ?_
    exact (follows_operand _).bind fun right _ => .pure rfl rfl

theorem follows_relation (ts : List Token) :
    FollowsRule supply ρ (·.mapParameters ρ) ts (relationIn supply ts) (relation ts) := by
  refine (follows_operand ts).bind fun left _ => ?_
  exact (follows_relationTo left.value left.rest).bind fun r _ => .pure rfl rfl

@[simp] theorem mapAll_eq_map (ps : List Predicate) :
    Predicate.mapAll ρ ps = ps.map (·.mapParameters ρ) := by
  induction ps with
  | nil => rfl
  | cons p ps ih => rw [Predicate.mapAll, ih, List.map_cons]

theorem mapParameters_joined_and (ps : List Predicate) :
    (joined .and ps).mapParameters ρ = joined .and (ps.map (·.mapParameters ρ)) := by
  unfold joined
  split
  · rfl
  · rename_i hps
    match ps, hps with
    | [], _ => rfl
    | [p], hps => exact (hps p rfl).elim
    | p :: q :: ps, _ => simp [Predicate.mapParameters]

theorem mapParameters_joined_or (ps : List Predicate) :
    (joined .or ps).mapParameters ρ = joined .or (ps.map (·.mapParameters ρ)) := by
  unfold joined
  split
  · rfl
  · rename_i hps
    match ps, hps with
    | [], _ => rfl
    | [p], hps => exact (hps p rfl).elim
    | p :: q :: ps, _ => simp [Predicate.mapParameters]

theorem follows_disjuncts_conjuncts_negation :
    (∀ ts, FollowsRule supply ρ (·.map (·.mapParameters ρ)) ts (disjunctsIn supply ts)
      (disjuncts ts)) ∧
    (∀ ts, FollowsRule supply ρ (·.map (·.mapParameters ρ)) ts (conjunctsIn supply ts)
      (conjuncts ts)) ∧
    (∀ ts, FollowsRule supply ρ (·.mapParameters ρ) ts (negationIn supply ts) (negation ts)) := by
  apply disjuncts.mutual_induct
  case case1 =>
    intro ts hc hd
    rw [disjunctsIn, disjuncts]
    refine hc.bind fun first _ => ?_
    dsimp only [Reading.map]
    cases hor : keyword? "or" first.rest with
    | none => exact .pure rfl (by simp [Reading.map, mapParameters_joined_and])
    | some r =>
      obtain ⟨us, hus, hnone⟩ := parameter?_of_keyword? hor
      refine .after hus hnone ((hd first r).bind fun others _ => .pure rfl ?_)
      simp [Reading.map, mapParameters_joined_and]
  case case2 =>
    intro ts hn hc
    rw [conjunctsIn, conjuncts]
    refine hn.bind fun first _ => ?_
    dsimp only [Reading.map]
    cases hand : keyword? "and" first.rest with
    | none => exact .pure rfl rfl
    | some r =>
      obtain ⟨us, hus, hnone⟩ := parameter?_of_keyword? hand
      exact .after hus hnone ((hc first r).bind fun others _ => .pure rfl rfl)
  case case3 =>
    intro ts r hnot hn
    rw [negationIn, negation]
    simp only [hnot]
    obtain ⟨us, hus, hnone⟩ := parameter?_of_keyword? hnot
    exact .after hus hnone (hn.bind fun item _ => .pure rfl rfl)
  case case4 =>
    intro ts hnot r hopening hd
    rw [negationIn, negation]
    simp only [hnot, hopening]
    obtain ⟨us, hus, hnone⟩ := parameter?_of_symbolAt? hopening
    refine .after hus hnone (hd.bind fun inner _ => ?_)
    have hclosing : FollowsRule supply ρ id inner.rest (liftM (closing inner.rest))
        (closing inner.rest) :=
      .lift fun close hc => ⟨rfl, [_], closing_eq_ok hc, by simp [Token.parameter?]⟩
    exact hclosing.bind fun close _ => .pure rfl (by simp [Reading.map, mapParameters_joined_or])
  case case5 =>
    intro ts hnot hopening
    rw [negationIn, negation]
    simp only [hnot, hopening]
    exact follows_relation ts

theorem follows_condition (ts : List Token) :
    FollowsRule supply ρ (·.mapParameters ρ) ts (conditionIn supply ts) (condition ts) := by
  have hbind : condition ts = disjuncts ts >>= fun items => pure (items.map (joined .or)) := by
    unfold condition
    cases disjuncts ts <;> rfl
  rw [hbind]
  exact (follows_disjuncts_conjuncts_negation.1 ts).bind fun items _ =>
    .pure rfl (by simp [Reading.map, mapParameters_joined_or])

theorem follows_whereClause (ts : List Token) :
    Follows supply ρ (·.2) (fun c => (c.1.map (·.mapParameters ρ), c.2)) ts
      (whereClauseIn supply ts) (whereClause ts) := by
  unfold whereClauseIn whereClause
  cases hwhere : keyword? "where" ts with
  | none => exact .pure rfl rfl
  | some r =>
    obtain ⟨us, hus, hnone⟩ := parameter?_of_keyword? hwhere
    exact .after hus hnone ((follows_condition r.rest).bind fun p _ => .pure rfl rfl)

theorem mapParameters_of_parameter? {e : Expression} (h : e.parameter? = none) :
    e.mapParameters ρ = e := by
  cases e with
  | parameter => cases h
  | _ => rfl

theorem follows_groupClause (ts : List Token) :
    Follows supply ρ (·.2) (fun c => (c.1.map (·.mapParameters ρ), c.2)) ts
      (liftM (groupClause ts)) (groupClause ts) :=
  .lift fun ⟨es, rest⟩ h => by
    obtain ⟨us, hus, hs⟩ := groupClause_eq_ok h
    refine ⟨?_, us, hus, hs.parameter? fun _ _ h => h.parameter?⟩
    have hmap : es.map (·.mapParameters ρ) = es.map id := List.map_congr_left fun e he =>
      mapParameters_of_parameter? (hs.items (fun _ _ h => h.expression) e he)
    rw [hmap, List.map_id]

theorem follows_orderClause (ts : List Token) :
    Follows supply ρ (·.2)
      (fun c => (c.1.map fun o => { o with expression := o.expression.mapParameters ρ }, c.2)) ts
      (liftM (orderClause ts)) (orderClause ts) :=
  .lift fun ⟨os, rest⟩ h => by
    obtain ⟨us, hus, hs⟩ := orderClause_eq_ok h
    refine ⟨?_, us, hus, hs.parameter? fun _ _ h => h.parameter?⟩
    have hmap : (os.map fun o => { o with expression := o.expression.mapParameters ρ }) =
        os.map id := List.map_congr_left fun o ho => by
      have hnone : o.expression.parameter? = none :=
        hs.items (P := fun o => o.expression.parameter? = none) (fun _ _ h => h.expression) o ho
      rw [mapParameters_of_parameter? hnone]
      rfl
    rw [hmap, List.map_id]

theorem follows_query (ts : List Token) :
    Follows supply ρ (fun _ => []) (·.mapParameters ρ) ts (queryIn supply ts) (query ts) := by
  unfold queryIn query
  have hselect : Follows supply ρ (·.2.2) id ts (liftM (selectClause ts)) (selectClause ts) :=
    .lift fun ⟨distinct, s, rest⟩ h => by
      obtain ⟨us, hus, hs⟩ := selectClause_eq_ok h
      exact ⟨rfl, us, hus, hs.parameter?⟩
  refine hselect.bind fun ⟨distinct, selection, ts⟩ _ =>
    (follows_keyword "from" ts).bind fun from_ _ => ?_
  have hsources : FollowsRule supply ρ id from_.rest (liftM (commaList source from_.rest))
      (commaList source from_.rest) :=
    .lift fun sources h => by
      obtain ⟨us, hus, hs⟩ := commaList_eq_ok (fun _ _ => source_eq_ok) h
      exact ⟨rfl, us, hus, hs.tokens (fun _ _ h => h.parameter?) rfl⟩
  refine hsources.bind fun sources _ => ?_
  dsimp only [Reading.map, id]
  cases repeatedAlias? [] sources.value with
  | some a => exact .throw _
  | none =>
  refine (follows_whereClause sources.rest).bind fun ⟨p, ts⟩ _ =>
    (follows_groupClause ts).bind fun ⟨es, ts⟩ _ =>
    (follows_orderClause ts).bind fun ⟨os, ts⟩ _ => ?_
  cases ts with
  | nil => exact .pure rfl rfl
  | cons t ts => exact .throw _

end

section
variable {supply : Supply} {names : List String} {name : String}

theorem eraseDups_concat (names : List String) (name : String) : (names ++ [name]).eraseDups =
    if name ∈ names then names.eraseDups else names.eraseDups ++ [name] := by
  rw [List.eraseDups_append]
  split
  · rename_i h
    simp [List.removeAll, h]
  · rename_i h
    simp [List.removeAll, h, List.eraseDups_cons]

/-- The parameter of a name among the names that a text writes. Its identity is supplied at the
place of the name among those that differ. -/
def handle (supply : Supply) (names : List String) (name : String) : Parameter :=
  ⟨supply (names.eraseDups.idxOf name) name, .any, some name⟩

/-- The identities of new parameters differ when their places and their names do. -/
def Supply.Distinct (supply : Supply) : Prop :=
  ∀ i j n m, i ≠ j → n ≠ m → supply i n ≠ supply j m

theorem handle_byNameAlone : handle byNameAlone names = parameterNamed := rfl

theorem Supply.Distinct.handle_inj (hd : supply.Distinct) {m : String} (hname : name ∈ names)
    (h : (handle supply names name).id = (handle supply names m).id) : name = m := by
  by_contra hne
  refine hd _ _ _ _ (fun hidx => hne ?_) hne h
  exact (List.idxOf_inj (by simpa using hname)).1 hidx

theorem handle_append (h : name ∈ names) (more : List String) :
    handle supply (names ++ more) name = handle supply names name := by
  rw [handle, handle, List.eraseDups_append,
    List.idxOf_append_of_mem (by simpa using h : name ∈ names.eraseDups)]

theorem find?_map_handle (names all : List String) (name : String) :
    Register.find? (names.map (handle supply all)) name =
      if name ∈ names then some (handle supply all name) else none := by
  induction names with
  | nil => rfl
  | cons n names ih =>
    unfold Register.find? at ih ⊢
    rw [List.map_cons, List.find?_cons]
    by_cases hn : n = name
    · subst hn
      simp [handle]
    · have hname : decide ((handle supply all n).name = some name) = false := by
        simpa [handle] using hn
      rw [hname]
      simp only [ih, List.mem_cons, Ne.symm hn, false_or]

/-- The register of the names that have been entered: a handle for each, in the order of first
occurrence. -/
theorem foldl_enter (supply : Supply) (names : List String) :
    names.foldl (Register.enter supply) [] = names.eraseDups.map (handle supply names) := by
  induction names using List.reverseRecOn with
  | nil => rfl
  | append_singleton names name ih =>
    have hold : names.eraseDups.map (handle supply (names ++ [name])) =
        names.eraseDups.map (handle supply names) :=
      List.map_congr_left fun n hn => handle_append (by simpa using hn) [name]
    rw [List.foldl_append, ih, List.foldl_cons, List.foldl_nil, Register.enter,
      Register.parameter, find?_map_handle, eraseDups_concat]
    by_cases hmem : name ∈ names
    · have hold' : name ∈ names.eraseDups := by simpa using hmem
      rw [if_pos hold', if_pos hmem, hold]
      rfl
    · have hnot : name ∉ names.eraseDups := by simpa using hmem
      have hnew : handle supply (names ++ [name]) name =
          ⟨supply names.eraseDups.length name, .any, some name⟩ := by
        rw [handle, eraseDups_concat, if_neg hmem, List.idxOf_append_of_notMem hnot]
        simp
      rw [if_neg hnot, if_neg hmem, List.map_append, hold, List.map_singleton, hnew,
        List.length_map]
      rfl

/-- The statement that is read with a register is the one that is read without, under the handles
of the register. -/
theorem Statement.registered_eq {text : List Char} {ts : List Token} (ρ : Parameter → Parameter)
    (hscan : scan text = .ok ts)
    (hρ : ∀ n ∈ writtenNames ts, ρ (parameterNamed n) = handle supply (writtenNames ts) n) :
    Statement.registered supply text = (QueryText.query ts).map fun q =>
      ⟨q.mapParameters ρ, (writtenNames ts).eraseDups.map (handle supply (writtenNames ts))⟩ := by
  have hreg : Register.enterAll supply [] ts =
      (writtenNames ts).eraseDups.map (handle supply (writtenNames ts)) := foldl_enter _ _
  have hagrees : Register.Agrees ρ (Register.enterAll supply [] ts) := by
    intro n p h
    rw [hreg, find?_map_handle] at h
    split at h
    · rename_i hn
      rw [hρ n (by simpa using hn)]
      exact Option.some.inj h
    · cases h
  obtain ⟨herror, hok⟩ := follows_query ts [] hagrees
  rw [Statement.registered, hscan, ok_bind]
  cases hq : QueryText.query ts with
  | error e =>
    rw [herror e hq]
    rfl
  | ok q =>
    obtain ⟨us, hus, hrun⟩ := hok q hq
    rw [List.append_nil] at hus
    subst hus
    rw [hrun, hreg]
    rfl

theorem firstById_concat (ps : List Parameter) (p : Parameter) : Query.firstById (ps ++ [p]) =
    if p.id ∈ ps.map (·.id) then Query.firstById ps else Query.firstById ps ++ [p] := by
  induction ps with
  | nil => rfl
  | cons x ps ih =>
    rw [List.cons_append, Query.firstById, Query.firstById, ih, List.map_cons]
    by_cases hmem : p.id ∈ ps.map (·.id)
    · rw [if_pos hmem, if_pos (.tail _ hmem)]
    · by_cases hx : p.id = x.id
      · rw [if_neg hmem, if_pos (hx ▸ .head _), List.filter_append]
        simp [hx]
      · rw [if_neg hmem, if_neg (by rw [List.mem_cons]; exact not_or.2 ⟨hx, hmem⟩),
          List.filter_append]
        simp [hx]

theorem firstById_map {h : String → Parameter} {names : List String}
    (hinj : ∀ n ∈ names, ∀ m ∈ names, (h n).id = (h m).id → n = m) :
    Query.firstById (names.map h) = names.eraseDups.map h := by
  induction names using List.reverseRecOn with
  | nil => rfl
  | append_singleton names name ih =>
    have hold := ih fun n hn m hm => hinj n (by simp [hn]) m (by simp [hm])
    have hmem : (h name).id ∈ (names.map h).map (·.id) ↔ name ∈ names := by
      rw [List.map_map, List.mem_map]
      refine ⟨fun ⟨n, hn, he⟩ => ?_, fun hn => ⟨name, hn, rfl⟩⟩
      exact hinj n (by simp [hn]) name (by simp) he ▸ hn
    rw [List.map_append, List.map_singleton, firstById_concat, eraseDups_concat, hold]
    by_cases hname : name ∈ names
    · rw [if_pos (hmem.2 hname), if_pos hname]
    · rw [if_neg fun hn => hname (hmem.1 hn), if_neg hname, List.map_append, List.map_singleton]

theorem Statement.registered_byNameAlone (text : List Char) :
    Statement.registered byNameAlone text = Statement.ofText text := by
  cases hscan : scan text with
  | error e =>
    unfold Statement.registered Statement.ofText
    rw [hscan]
    rfl
  | ok ts =>
    have hnamed : Query.firstById ((writtenNames ts).map parameterNamed) =
        (writtenNames ts).eraseDups.map parameterNamed :=
      firstById_map fun n _ m _ he => ParameterId.named.inj he
    rw [Statement.registered_eq id hscan fun _ _ => rfl, Statement.ofText, hscan, ok_bind,
      ← writtenNames, hnamed]
    cases QueryText.query ts with
    | error e => rfl
    | ok q =>
      rw [Except.map, Query.mapParameters_id, handle_byNameAlone]
      rfl

def replace (supply : Supply) (names : List String) (p : Parameter) : Parameter :=
  match p.name with
  | some n => handle supply names n
  | none => p

/-- What reading with a register leaves: the tokens state a query, its parameters are replaced by
handles, and the register has one for each name. -/
theorem Statement.registered_eq_ok_iff {text : List Char} {st : Statement} :
    Statement.registered supply text = .ok st ↔ ∃ ts q, scan text = .ok ts ∧ States ts q ∧
      st.query = q.mapParameters (replace supply (writtenNames ts)) ∧
      st.named = (writtenNames ts).eraseDups.map (handle supply (writtenNames ts)) := by
  constructor
  · intro h
    obtain ⟨ts, hts, -⟩ := bind_eq_ok_iff.1 h
    rw [Statement.registered_eq (replace supply (writtenNames ts)) hts fun _ _ => rfl,
      map_eq_ok_iff] at h
    obtain ⟨q, hq, rfl⟩ := h
    exact ⟨ts, q, hts, query_eq_ok_iff.1 hq, rfl, rfl⟩
  · rintro ⟨ts, q, hts, hs, hquery, hnamed⟩
    rw [Statement.registered_eq (replace supply (writtenNames ts)) hts fun _ _ => rfl,
      query_eq_ok_iff.2 hs]
    obtain ⟨query, named⟩ := st
    obtain rfl : query = _ := hquery
    obtain rfl : named = _ := hnamed
    rfl

theorem mem_writtenNames {ts : List Token} : name ∈ writtenNames ts ↔ .parameter name ∈ ts := by
  rw [writtenNames, List.mem_filterMap]
  refine ⟨fun ⟨t, ht, he⟩ => ?_, fun h => ⟨_, h, rfl⟩⟩
  cases t with
  | parameter n =>
    cases he
    exact ht
  | _ => cases he

theorem States.handles {ts : List Token} {q : Query} (h : States ts q) :
    (q.mapParameters (replace supply (writtenNames ts))).expressions.filterMap
      Expression.parameter? = (writtenNames ts).map (handle supply (writtenNames ts)) := by
  have hmap : (q.expressions.map (·.mapParameters (replace supply (writtenNames ts)))).filterMap
      Expression.parameter? =
      (q.expressions.filterMap Expression.parameter?).map (replace supply (writtenNames ts)) := by
    rw [List.filterMap_map, List.map_filterMap]
    exact congrArg (List.filterMap · _) (funext (Expression.parameter?_mapParameters _))
  rw [Query.expressions_mapParameters, hmap, ← h.writtenParameters_eq, writtenParameters,
    List.map_map]
  rfl

end

end QueryText

end EntityQuery
