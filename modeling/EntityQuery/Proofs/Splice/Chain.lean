import EntityQuery.Proofs.Augmentation.Passage
import EntityQuery.Proofs.Session.Prepared
import EntityQuery.Proofs.Splice.Augment
/-! Texts that one augmentor passes on to the next. Each augmentation prepares a new query from the
text of the old one, and of the values bound before nothing is kept: those at the end are the ones
that the last augmentor gives. -/
namespace EntityQuery
open Criteria Evaluation

section
variable {p p' : PreparedQuery} {q : Query} {text : Option String} {b : Bindings}
  {ts : List QueryText.Token}

theorem QueryText.States.parameter_id (hs : QueryText.States ts q) {x : Parameter}
    (hx : x ∈ q.parameters) : x.id = .named x.label := by
  obtain ⟨name, -, rfl⟩ := hs.mem_parameters_iff.1 hx
  rfl

theorem PreparedQuery.plan_bindNamed (hs : QueryText.States ts q)
    (hp : p.plan = .stored q text q.parameters b) {name : String} {v : Value}
    (h : p.bindNamed name v = .ok p') :
    p'.plan = .stored q text q.parameters ((.named name, v) :: b) := by
  unfold bindNamed at h
  rw [hp] at h
  dsimp only at h
  split at h
  · cases h
  rename_i x hx
  unfold bind at h
  rw [hp] at h
  dsimp only at h
  split at h
  · cases h
  rename_i y hy
  split at h
  · cases h
    have hname : x.name = some name := by simpa using List.find?_some hx
    have hid : y.id = x.id := by simpa using List.find?_some hy
    have hx := hs.parameter_id (List.mem_of_find?_eq_some hx)
    rw [Parameter.label, hname] at hx
    rw [hid, hx]
    rfl
  · cases h

theorem TextContext.plan_bindAll (hs : QueryText.States ts q)
    (hp : p.plan = .stored q text q.parameters b) {values : Dictionary Value}
    (h : bindAll p values = .ok p') :
    p'.plan = .stored q text q.parameters
      (values.reverse.map (fun v => (.named v.1, v.2)) ++ b) := by
  induction values generalizing p b with
  | nil =>
    cases h
    exact hp
  | cons x values ih =>
    obtain ⟨name, v⟩ := x
    obtain ⟨r, hr, h⟩ := bind_eq_ok_iff.1 h
    rw [ih (PreparedQuery.plan_bindNamed hs hp hr) h]
    simp

theorem Evaluation.Bindings.value?_named {values : Dictionary Value}
    (hkeys : (values.map (·.1)).Nodup) (name : String) :
    Bindings.value? (values.reverse.map fun v => (.named v.1, v.2)) (.named name) =
      Dictionary.get? name values := by
  unfold value?
  induction values with
  | nil => rfl
  | cons x values ih =>
    obtain ⟨key, v⟩ := x
    obtain ⟨hkey, hkeys⟩ := List.nodup_cons.1 hkeys
    rw [List.reverse_cons, List.map_append, List.find?_append, Dictionary.get?]
    by_cases hname : key = name
    · have hnone : (values.reverse.map fun v : String × Value => (ParameterId.named v.1, v.2)).find?
          (·.1 = .named name) = none := by
        refine List.find?_eq_none.2 fun y hy => ?_
        obtain ⟨z, hz, rfl⟩ := List.mem_map.1 hy
        have hmem : z.1 ∈ values.map (·.1) := List.mem_map_of_mem (List.mem_reverse.1 hz)
        have hne : z.1 ≠ name := fun h => hkey (by rwa [hname, ← h])
        simpa using hne
      rw [hnone, if_pos hname]
      simp [hname]
    · rw [if_neg hname, ← ih hkeys]
      simp [hname]

end

namespace Augmentation

def ofText (augmentors : List Augmentor) (c : TextContext) : List Augmentor :=
  match c.entity with
  | some entity => supporting augmentors .string c.mode entity
  | none => []

theorem onText_eq (augmentors : List Augmentor) (s : Session) (c : TextContext) :
    onText augmentors s c = thread c ((ofText augmentors c).map fun a => (a.name, a.onText s)) := by
  unfold onText ofText
  cases c.entity <;> rfl

/-- The last augmentor augments what the others made of the text. -/
theorem onText_concat {augmentors init : List Augmentor} {a : Augmentor} {s : Session}
    {c c' : TextContext} (hlast : ofText augmentors c = init ++ [a])
    (h : (onText augmentors s c).outcome = .ok c') :
    ∃ d, (thread c (init.map fun a => (a.name, a.onText s))).outcome = .ok d ∧
      a.onText s d = .ok c' := by
  rw [onText_eq, hlast, List.map_append, thread_append, Passage.outcome_andThen] at h
  obtain ⟨d, hd, h⟩ := bind_eq_ok_iff.1 h
  refine ⟨d, hd, ?_⟩
  rw [List.map_singleton, thread] at h
  cases ha : a.onText s d with
  | error e =>
    rw [ha] at h
    cases h
  | ok e =>
    rw [ha] at h
    exact h

end Augmentation

/-- After an augmentation the values are those that it gives, each under its own name, and the query
fails for want of a value exactly when one of its parameters is given none. -/
theorem TextContext.augment_binds {s : Session} {c c' : TextContext} {a : Addition}
    (hs : s.answers = none) (hkeys : (a.parameters.map (·.1)).Nodup)
    (h : c.augment s a.source a.condition a.parameters = .ok c') :
    (∀ name, c'.query.value? name = Dictionary.get? name a.parameters) ∧
      ∀ label, (c'.query.rows s.store).1 = .error (.unboundParameter label) ↔
        s.store.failure = none ∧ c'.query.parameterNames.find?
          (fun name => (Dictionary.get? name a.parameters).isNone) = some label := by
  obtain ⟨text, first, p, r, -, -, hp, hr, rfl⟩ := TextContext.augment_eq_ok_iff.1 h
  obtain ⟨ts, q, -, hstates, hvalid, rfl⟩ := (Session.prepareText_eq_ok_iff hs).1 hp
  have hplan := TextContext.plan_bindAll hstates rfl hr
  rw [List.append_nil] at hplan
  have hvalue : ∀ name, r.value? name = Dictionary.get? name a.parameters := by
    intro name
    rw [PreparedQuery.value?, hplan]
    exact Bindings.value?_named hkeys name
  refine ⟨hvalue, fun label => ?_⟩
  have hrows := PreparedQuery.rows_eq_unbound_iff hplan hvalid
    (fun x hx => hstates.parameter_id hx) label
  simpa only [hvalue] using hrows

/-- What a chain of augmentors makes of a text whose parameters are bound: without augmentors for it
the query stays as it is and has all its values; else the values are those that the last one gives,
whatever was bound before, and only parameters that it gives none are found unbound. -/
theorem onText_binds_last {augmentors : List Augmentor} (add : Augmentor → TextContext → Addition)
    {s : Session} {c c' : TextContext} {text : String} {p : PreparedQuery}
    {values : Dictionary Value} (hs : s.answers = none)
    (hp : s.prepareText text = .ok p)
    (hbind : TextContext.bindAll p values = .ok c.query)
    (hbound : ∀ name ∈ c.query.parameterNames, (c.query.value? name).isSome)
    (hadds : ∀ a ∈ augmentors, ∀ d,
      a.onText s d = d.augment s (add a d).source (add a d).condition (add a d).parameters)
    (hkeys : ∀ a ∈ augmentors, ∀ d, ((add a d).parameters.map (·.1)).Nodup)
    (hrun : (Augmentation.onText augmentors s c).outcome = .ok c') :
    (Augmentation.ofText augmentors c = [] ∧ c' = c ∧
        ∀ label, (c'.query.rows s.store).1 ≠ .error (.unboundParameter label)) ∨
      ∃ init a d, Augmentation.ofText augmentors c = init ++ [a] ∧
        (Augmentation.thread c (init.map fun a => (a.name, a.onText s))).outcome = .ok d ∧
        let given := fun name => Dictionary.get? name (add a d).parameters
        (∀ name, c'.query.value? name = given name) ∧
        ((∀ name ∈ c'.query.parameterNames, (given name).isSome) →
          ∀ label, (c'.query.rows s.store).1 ≠ .error (.unboundParameter label)) ∧
        ∀ label, (c'.query.rows s.store).1 = .error (.unboundParameter label) ↔
          s.store.failure = none ∧
            c'.query.parameterNames.find? (fun name => (given name).isNone) = some label := by
  have hnever : ∀ {names : List String} {f : String → Option Value},
      (∀ name ∈ names, (f name).isSome) →
        ∀ label, names.find? (fun name => (f name).isNone) ≠ some label := by
    intro names f h label
    rw [find?_isNone_eq_none_iff.2 h]
    exact nofun
  rcases List.eq_nil_or_concat' (Augmentation.ofText augmentors c) with
    hnone | ⟨init, a, hlast⟩
  · have hsame : c' = c := by
      rw [Augmentation.onText_eq, hnone] at hrun
      exact (Except.ok.inj hrun).symm
    subst hsame
    obtain ⟨ts, q, -, hstates, hvalid, rfl⟩ := (Session.prepareText_eq_ok_iff hs).1 hp
    have hplan := TextContext.plan_bindAll hstates rfl hbind
    refine .inl ⟨hnone, rfl, fun label h => hnever hbound label ?_⟩
    exact ((PreparedQuery.rows_eq_unbound_iff hplan hvalid
      (fun x hx => hstates.parameter_id hx) label).1 h).2
  · obtain ⟨d, hd, ha⟩ := Augmentation.onText_concat hlast hrun
    have hmem : a ∈ augmentors := by
      have hsupports : a ∈ Augmentation.ofText augmentors c := by
        rw [hlast]
        exact List.mem_append_right _ (.head _)
      unfold Augmentation.ofText at hsupports
      split at hsupports
      · exact (List.mem_filter.1 hsupports).1
      · cases hsupports
    rw [hadds a hmem d] at ha
    obtain ⟨hvalue, hunbound⟩ := TextContext.augment_binds hs (hkeys a hmem d) ha
    exact .inr ⟨init, a, d, hlast, hd, hvalue,
      fun h label hrows => hnever h label ((hunbound label).1 hrows).2, hunbound⟩

def Augmentor.adding (name : String) (a : Addition) : Augmentor where
  name
  supports _ _ _ := true
  onText s c := c.augment s a.source a.condition a.parameters

theorem TextContext.augment_of_states {s : Session} {c : TextContext} {q q' : Query} {b : Bindings}
    {text text' : String} {first : List Char} {ts : List QueryText.Token} {a : Addition}
    (hm : s.provider = .memory) (hs : s.answers = none)
    (hplan : c.query.plan = .stored q (some text) q.parameters b)
    (hfirst : QueryText.detectAlias? text.toList = some first)
    (hadd : QueryText.addClauses text.toList a.source.toList
      (fillAlias first a.condition.toList) = text'.toList)
    (hscan : QueryText.scan text'.toList = .ok ts) (hstates : QueryText.States ts q')
    (hvalid : Valid s.store.tables q') (hnames : ∀ v ∈ a.parameters, .parameter v.1 ∈ ts) :
    ∃ r b', c.augment s a.source a.condition a.parameters = .ok { c with query := r } ∧
      r.plan = .stored q' (some text') q'.parameters b' := by
  have hprepare := (Session.prepareText_eq_ok_iff hs).2 ⟨ts, q', hscan, hstates, hvalid, rfl⟩
  obtain ⟨r, b', hr, hplan'⟩ := bindAll_eq_ok (p := ⟨.stored q' (some text') q'.parameters [],
    none, []⟩) hstates hnames rfl
  refine ⟨r, b', augment_eq_ok_iff.2 ⟨text, first, _, r, text_eq_ok hm hplan, hfirst, ?_, hr, rfl⟩,
    hplan'⟩
  rw [hadd, String.ofList_toList]
  exact hprepare

section
open QueryText

def oneBound : Query where
  result := .entity
  roots := [⟨"E", "e"⟩]
  restriction := some (.comparison .eq (.path ⟨"e", some "id"⟩) (.parameter (parameterNamed "p")))

def twoBound : Query where
  result := .entity
  roots := [⟨"E", "e"⟩]
  restriction := some (.and [
    .comparison .eq (.path ⟨"e", some "id"⟩) (.parameter (parameterNamed "p")),
    .comparison .eq (.path ⟨"e", some "x"⟩) (.parameter (parameterNamed "q"))])

theorem states_oneBound_twoBound : ∃ ts us,
    scan "from E e where e.id = :p".toList = .ok ts ∧ States ts oneBound ∧
    scan "from E e where (e.id = :p) and e.x = :q".toList = .ok us ∧ States us twoBound ∧
    .parameter "p" ∈ us ∧ .parameter "q" ∈ us := by
  have hfrom : Token.isKeyword "from" (.word "from") := by cbv
  have hwhere : Token.isKeyword "where" (.word "where") := by cbv
  have hand : Token.isKeyword "and" (.word "and") := by cbv
  have hsources : Listed Source [.word "E", .word "e"] [⟨"E", "e"⟩] :=
    .one (.intro .absent (by cbv) (by cbv) (by cbv))
  have hid : Negation [.word "e.id", .symbol (.comparison .eq), .parameter "p"] _ :=
    .relation (.comparison (.name (by cbv)) .eq (.parameter _))
  have hx : Negation [.word "e.x", .symbol (.comparison .eq), .parameter "q"] _ :=
    .relation (.comparison (.name (by cbv)) .eq (.parameter _))
  have hone : Parts oneBound [] (.word "from") _ _ [] [] := ⟨.absent, hfrom, hsources,
    List.nodup_singleton _, .present hwhere (.one (.one hid)), .absent, .absent, rfl⟩
  have htwo : Parts twoBound [] (.word "from") _ _ [] [] := ⟨.absent, hfrom, hsources,
    List.nodup_singleton _, .present hwhere (.one (.more (.group (.one (.one hid))) hand (.one hx))),
    .absent, .absent, rfl⟩
  exact ⟨_, _, by cbv, .intro hone, by cbv, .intro htwo, by simp, by simp⟩

def withRows (vs : List Value) : Session where
  store := { tables := [("E", vs)] }

def oneBoundQuery : PreparedQuery where
  plan := .stored oneBound (some "from E e where e.id = :p") oneBound.parameters
    [(.named "p", .integer 1)]

theorem exists_oneBoundQuery (vs : List Value) :
    ∃ p, (withRows vs).prepareText "from E e where e.id = :p" = .ok p ∧
      TextContext.bindAll p [("p", .integer 1)] = .ok oneBoundQuery := by
  obtain ⟨ts, us, hscan, hstates, -⟩ := states_oneBound_twoBound
  exact ⟨_, (Session.prepareText_eq_ok_iff rfl).2 ⟨ts, oneBound, hscan, hstates,
    validate_eq_ok_iff.1 rfl, rfl⟩, rfl⟩

theorem augment_oneBound (vs : List Value) (c : TextContext) (hc : c.query = oneBoundQuery)
    (values : Dictionary Value) (hnames : ∀ v ∈ values, v.1 = "p" ∨ v.1 = "q") :
    ∃ r b, c.augment (withRows vs) "" "\x7balias\x7d.x = :q" values = .ok { c with query := r } ∧
      r.plan = .stored twoBound (some "from E e where (e.id = :p) and e.x = :q")
        twoBound.parameters b := by
  obtain ⟨ts, us, -, -, hscan, hstates, hp, hq⟩ := states_oneBound_twoBound
  have hfirst : detectAlias? "from E e where e.id = :p".toList = some ['e'] := by decide +kernel
  have hadd : addClauses "from E e where e.id = :p".toList "".toList
      (TextContext.fillAlias ['e'] "\x7balias\x7d.x = :q".toList) =
      "from E e where (e.id = :p) and e.x = :q".toList := by decide +kernel
  refine TextContext.augment_of_states (a := ⟨"", "\x7balias\x7d.x = :q", values⟩) rfl rfl
    (congrArg PreparedQuery.plan hc) hfirst hadd hscan hstates (validate_eq_ok_iff.1 rfl) ?_
  intro v hv
  rcases hnames v hv with h | h
  · rw [h]; exact hp
  · rw [h]; exact hq

theorem augment_twoBound (vs : List Value) {c : TextContext} {b : Bindings}
    (hc : c.query.plan = .stored twoBound (some "from E e where (e.id = :p) and e.x = :q")
      twoBound.parameters b) (values : Dictionary Value)
    (hnames : ∀ v ∈ values, v.1 = "p" ∨ v.1 = "q") :
    ∃ r b', c.augment (withRows vs) "" "" values = .ok { c with query := r } ∧
      r.plan = .stored twoBound (some "from E e where (e.id = :p) and e.x = :q")
        twoBound.parameters b' := by
  obtain ⟨ts, us, -, -, hscan, hstates, hp, hq⟩ := states_oneBound_twoBound
  have hfirst : detectAlias? "from E e where (e.id = :p) and e.x = :q".toList = some ['e'] := by
    decide +kernel
  have hadd : addClauses "from E e where (e.id = :p) and e.x = :q".toList "".toList
      (TextContext.fillAlias ['e'] "".toList) =
      "from E e where (e.id = :p) and e.x = :q".toList := by decide +kernel
  refine TextContext.augment_of_states (a := ⟨"", "", values⟩) rfl rfl hc hfirst hadd hscan
    hstates (validate_eq_ok_iff.1 rfl) ?_
  intro v hv
  rcases hnames v hv with h | h
  · rw [h]; exact hp
  · rw [h]; exact hq

theorem parameterNames_twoBound {p : PreparedQuery} {text : Option String} {b : Bindings}
    (h : p.plan = .stored twoBound text twoBound.parameters b) : p.parameterNames = ["p", "q"] := by
  rw [PreparedQuery.parameterNames, h]
  rfl

/-- The last augmentor gives the values of all parameters again, and they all have theirs. -/
theorem onText_binds_last_again :
    let first : Addition := ⟨"", "\x7balias\x7d.x = :q", [("q", .integer 2)]⟩
    let last : Addition := ⟨"", "", [("p", .integer 1), ("q", .integer 2)]⟩
    ∃ p c, (withRows []).prepareText "from E e where e.id = :p" = .ok p ∧
      TextContext.bindAll p [("p", .integer 1)] = .ok oneBoundQuery ∧
      (Augmentation.onText [.adding "first" first, .adding "last" last] (withRows [])
        ⟨.find, oneBoundQuery, some (.ofName "E" "id" .integer)⟩).outcome = .ok c ∧
      (∀ name, c.query.value? name = Dictionary.get? name last.parameters) ∧
      ∀ label, (c.query.rows (withRows []).store).1 ≠ .error (.unboundParameter label) := by
  intro first last
  obtain ⟨p, hp, hbind⟩ := exists_oneBoundQuery []
  obtain ⟨r, b, hfirst, hplan⟩ := augment_oneBound []
    ⟨.find, oneBoundQuery, some (.ofName "E" "id" .integer)⟩ rfl first.parameters (by simp [first])
  obtain ⟨r', b', hlast, hplan'⟩ := augment_twoBound []
    (c := ⟨.find, r, some (.ofName "E" "id" .integer)⟩) hplan last.parameters (by simp [last])
  have hrun : (Augmentation.onText [.adding "first" first, .adding "last" last] (withRows [])
      ⟨.find, oneBoundQuery, some (.ofName "E" "id" .integer)⟩).outcome =
        .ok ⟨.find, r', some (.ofName "E" "id" .integer)⟩ := by
    show (Augmentation.thread _ [("first", fun c : TextContext => c.augment (withRows []) ""
        "\x7balias\x7d.x = :q" first.parameters),
      ("last", fun c : TextContext => c.augment (withRows []) "" "" last.parameters)]).outcome = _
    rw [Augmentation.thread, hfirst]
    dsimp only
    rw [Augmentation.thread, hlast]
    rfl
  have hbound : ∀ name ∈ oneBoundQuery.parameterNames, (oneBoundQuery.value? name).isSome := by
    intro name hname
    obtain rfl : name = "p" := List.mem_singleton.1 hname
    rfl
  refine ⟨p, _, hp, hbind, hrun, ?_⟩
  obtain ⟨hnone, -⟩ | ⟨init, a, d, hsupporting, -, hvalues, hnever, -⟩ := onText_binds_last
    (fun a _ => if a.name = "first" then first else last) rfl hp hbind hbound
    (by simp [Augmentor.adding])
    (by simp [Augmentor.adding, first, last]) hrun
  · cases hnone
  · obtain rfl : .adding "last" last = a := by
      have hconcat : [Augmentor.adding "first" first] ++ [.adding "last" last] = init ++ [a] :=
        hsupporting
      exact List.singleton_inj.1 (List.append_inj' hconcat rfl).2
    refine ⟨hvalues, hnever ?_⟩
    rw [parameterNames_twoBound hplan']
    simp [Augmentor.adding, last, Dictionary.get?]

/-- A value that was bound is lost when an augmentor binds only the parameter that it adds. -/
theorem onText_unbinds :
    let row := Value.object [("id", .integer 1), ("x", .integer 2)]
    ∃ p c, (withRows [row]).prepareText "from E e where e.id = :p" = .ok p ∧
      TextContext.bindAll p [("p", .integer 1)] = .ok oneBoundQuery ∧
      (oneBoundQuery.rows (withRows [row]).store).1 = .ok [row] ∧
      (Augmentation.onText [.adding "x" ⟨"", "\x7balias\x7d.x = :q", [("q", .integer 2)]⟩]
        (withRows [row]) ⟨.find, oneBoundQuery, some (.ofName "E" "id" .integer)⟩).outcome =
          .ok c ∧
      (c.query.rows (withRows [row]).store).1 = .error (.unboundParameter "p") := by
  intro row
  obtain ⟨p, hp, hbind⟩ := exists_oneBoundQuery [row]
  obtain ⟨r, b, haugment, hplan⟩ := augment_oneBound [row]
    ⟨.find, oneBoundQuery, some (.ofName "E" "id" .integer)⟩ rfl [("q", .integer 2)] (by simp)
  refine ⟨p, ⟨.find, r, some (.ofName "E" "id" .integer)⟩, hp, hbind, by cbv, ?_, ?_⟩
  · show (Augmentation.thread _ [("x", fun c : TextContext => c.augment (withRows [row]) ""
      "\x7balias\x7d.x = :q" [("q", .integer 2)])]).outcome = _
    rw [Augmentation.thread, haugment]
    rfl
  · refine ((TextContext.augment_binds
      (a := ⟨"", "\x7balias\x7d.x = :q", [("q", .integer 2)]⟩) rfl (by simp) haugment).2 "p").2 ⟨rfl, ?_⟩
    rw [parameterNames_twoBound hplan]
    rfl

end

end EntityQuery
