import EntityQuery.Proofs.Evaluation.Multiplicity
import EntityQuery.Proofs.Executor.Impartial
import EntityQuery.Proofs.Executor.Pipeline
import EntityQuery.Proofs.Rendering.Unordered
/-! A sorting without orders. It is not the absence of one: the orders that augmentors have given a
query are replaced by none, so its text loses the order clause, and its rows come as often as
before but in another order. On a query that has no orders it changes nothing. -/
namespace EntityQuery
open Criteria Evaluation

theorem Criteria.Query.orderedBy_of_orders {q : Query} {orders : List Order}
    (h : q.orders = orders) : q.orderedBy orders = q := by
  subst h
  rfl

theorem Provider.textOf_stored {p : PreparedQuery} {q : Query} {named : List Parameter}
    {b : Bindings} (h : p.plan = .stored q none named b) : memory.textOf p = some q.text := by
  unfold textOf
  rw [h]
  rfl

namespace Executor
variable {x : Executor} {spec : Option Specification} {o : ObservedSession} {s : Session}

theorem query_eq (x : Executor) (spec : Option Specification) (sorting : Option Sorting) :
    x.query spec sorting = x.build .entity spec .find >>= fun b =>
      x.prepare .queryBuilt Metrics.noteQuery (selected sorting b.1 b.2) := by
  cases sorting <;> rfl

theorem selected_unsorted (q : Query) (root : Root) :
    selected (some .unsorted) q root = (selected none q root).orderedBy [] := rfl

theorem query_outcome {q : Query} {root : Root} (h : x.built .entity spec .find = .ok (q, root))
    (o : ObservedSession) (sorting : Option Sorting) : (x.query spec sorting).outcome o =
      x.prepared o.session (selected sorting q root) := by
  rw [(x.gives_query spec o.session sorting o rfl).1, h, ok_bind]

theorem exists_prepared_orderedBy_nil {q : Query} {p : PreparedQuery} (hs : s.answers = none)
    (h : x.prepared s q = .ok p) : ∃ p', x.prepared s (q.orderedBy []) = .ok p' ∧
      p'.plan = .stored (q.orderedBy []) none [] [] := by
  rw [prepared, Session.prepare_eq hs] at h
  obtain ⟨p₀, hp₀, -⟩ := map_eq_ok_iff.1 h
  obtain ⟨⟨⟩, hvalid, -⟩ := map_eq_ok_iff.1 (mapError_eq_ok_iff.1 hp₀)
  exact exists_prepared hs (validate_eq_ok_iff.1 hvalid).orderedBy_nil

theorem prepared_of_answers (h : s.answers.isSome) (q q' : Query) :
    x.prepared s q = x.prepared s q' := by
  obtain ⟨rows, hrows⟩ := Option.isSome_iff_exists.1 h
  unfold prepared Session.prepare
  rw [hrows]

/-- An unsorted sorting does what none does when what is built has no orders, or the answers are
fixed. Otherwise the query is the one that none gives without its orders: its text lacks their
clause, and it answers the same rows as often. -/
theorem query_unsorted_drops_orders (x : Executor) (spec : Option Specification)
    (o : ObservedSession) :
    let unsorted := x.query spec (some .unsorted)
    let absent := x.query spec none
    ((∀ q root, x.built .entity spec .find = .ok (q, root) → q.orders = []) →
        unsorted.outcome o = absent.outcome o ∧ unsorted.after o = absent.after o) ∧
      (o.session.answers.isSome → unsorted.outcome o = absent.outcome o) ∧
      ∀ q root p, o.session.answers = none → x.built .entity spec .find = .ok (q, root) →
        absent.outcome o = .ok p →
          ∃ p' q', unsorted.outcome o = .ok p' ∧ p.plan = .stored q' none [] [] ∧
            p'.plan = .stored (q'.orderedBy []) none [] [] ∧
            (∃ text clause, Provider.memory.textOf p' = some text ∧
              Provider.memory.textOf p = some (text ++ clause) ∧ (clause = "" ↔ q.orders = [])) ∧
            ∀ tables b vs, execute tables q' b = .ok vs →
              ∃ ws, execute tables (q'.orderedBy []) b = .ok ws ∧
                ∀ v, ws.countP (·.same v) = vs.countP (·.same v) := by
  intro unsorted absent
  refine ⟨fun hnone => ?_, fun hs => ?_, fun q root p hs hq hp => ?_⟩
  · obtain ⟨hbuilt, -⟩ := x.gives_build spec o.session .entity .find o rfl
    show (x.query spec (some .unsorted)).outcome o = (x.query spec none).outcome o ∧
      (x.query spec (some .unsorted)).after o = (x.query spec none).after o
    rw [query_eq, query_eq]
    refine Run.bind_congr fun b hb => ?_
    have horders : (selected none b.1 b.2).orders = [] := hnone b.1 b.2 (hbuilt.symm.trans hb)
    rw [selected_unsorted, Query.orderedBy_of_orders horders]
  · refine (x.gives_query spec o.session _ o rfl).1.trans
      (Eq.trans ?_ (x.gives_query spec o.session none o rfl).1.symm)
    exact congrArg _ (funext fun b => prepared_of_answers hs _ _)
  · rw [query_outcome hq] at hp
    obtain ⟨p', hp', hplan'⟩ := exists_prepared_orderedBy_nil hs hp
    have hplan := prepared_eq_ok hs hp
    refine ⟨p', selected none q root, (query_outcome hq o _).trans hp', hplan, hplan',
      ⟨_, (selected none q root).orderText, Provider.textOf_stored hplan', ?_,
        Query.orderText_eq_empty_iff⟩,
      fun tables b vs hvs => execute_orderedBy_nil nofun hvs⟩
    rw [← Query.text_eq_append]
    exact Provider.textOf_stored hplan

/-- The orders of one augmentor are dropped; without it there are none. -/
theorem query_unsorted_drops_orders_age :
    let row (age : Int) (name : String) : Value :=
      .object [("age", .integer age), ("name", .string name)]
    let o : ObservedSession := { session := { store := { tables :=
      [("E", [row 2 "a", row 1 "b", row 2 "a"])] } } }
    let byAge := Augmentor.rewriting "age" [.order fun root _ =>
      [⟨.path ⟨(root.map (·.aliasName)).getD "", some "age"⟩, .desc⟩]]
    let plain : Executor := { entity := .ofName "E" "name" .string }
    let x := { plain with augmentors := [byAge] }
    (plain.query none (some .unsorted)).outcome o = (plain.query none none).outcome o ∧
      ∃ p p', (x.query none none).outcome o = .ok p ∧
        (x.query none (some .unsorted)).outcome o = .ok p' ∧
        ∃ text clause, Provider.memory.textOf p' = some text ∧
          Provider.memory.textOf p = some (text ++ clause) ∧ clause ≠ "" := by
  intro row o byAge plain x
  obtain ⟨hsame, -⟩ := query_unsorted_drops_orders plain none o
  obtain ⟨-, -, hdrops⟩ := query_unsorted_drops_orders x none o
  obtain ⟨q, root, hq, horders⟩ : ∃ q root, x.built .entity none .find = .ok (q, root) ∧
      q.orders ≠ [] := ⟨_, _, rfl, List.cons_ne_nil _ _⟩
  obtain ⟨p, hp, -⟩ := exists_prepared (x := x) (s := o.session) (q := selected none q root) rfl
    (validate_eq_ok_iff.1 (by cases hq; decide +kernel))
  have houtcome := (query_outcome hq o none).trans hp
  obtain ⟨p', q', hp', -, -, ⟨text, clause, htext, hclause, hempty⟩, -⟩ :=
    hdrops q root p rfl hq houtcome
  refine ⟨(hsame fun q root hq => ?_).1, p, p', houtcome, hp', text, clause, htext, hclause,
    fun h => horders (hempty.1 h)⟩
  cases hq
  rfl

/-- An augmentor orders the rows, and an unsorted sorting leaves them as they are stored. -/
theorem query_unsorted_of_ordered :
    let o : ObservedSession := { session := { store := { tables :=
      [("E", [.object [("x", .integer 2)], .object [("x", .integer 1)]])] } } }
    let byX := Augmentor.rewriting "byX" [.order fun root _ =>
      [⟨.path ⟨(root.map (·.aliasName)).getD "", some "x"⟩, .asc⟩]]
    let x : Executor := { entity := .ofName "E" "id" .integer, augmentors := [byX] }
    let decode : Decode Int := fun v => (v.member? "x").elim (.error "missing field") Decode.long
    ((x.query none none).outcome o).map Provider.memory.textOf =
        .ok (some "select e from E e order by e.x asc") ∧
      ((x.query none (some .unsorted)).outcome o).map Provider.memory.textOf =
        .ok (some "select e from E e") ∧
      (x.found decode none none).outcome o = .ok [1, 2] ∧
      (x.found decode none (some .unsorted)).outcome o = .ok [2, 1] := by
  decide +kernel

end Executor

end EntityQuery
