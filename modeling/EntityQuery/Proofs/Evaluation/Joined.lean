import EntityQuery.Proofs.Evaluation.Alike
import EntityQuery.Proofs.Evaluation.Arranged
import EntityQuery.Proofs.Evaluation.Grouped
/-! One more source to which nothing refers. It is the innermost one, so that each combination comes
once with each of its rows, and no later stage tells these apart: what a query answers is repeated in
place as often as the source has rows. -/
namespace EntityQuery.Evaluation
open Criteria

def extend (r : Root) (x : Combination × Value) : Combination := x.1 ++ [(r, x.2)]

def extendAll (r : Root) (vs : List Value) (cs : List Combination) : List Combination :=
  (cs ×ˢ vs).map (extend r)

section
variable {tables : Tables} {b : Bindings} {r : Root} {vs : List Value} {cs all : List Combination}

theorem extendAll_cons (c : Combination) (cs : List Combination) :
    extendAll r vs (c :: cs) = (vs.map fun v => extend r (c, v)) ++ extendAll r vs cs := by
  rw [extendAll, List.product_cons, List.map_append, List.map_map]
  rfl

theorem extendAll_nil_right (cs : List Combination) : extendAll r [] cs = [] := by
  rw [extendAll, List.product_nil, List.map_nil]

theorem mem_extendAll {c : Combination} :
    c ∈ extendAll r vs cs ↔ ∃ d ∈ cs, ∃ v ∈ vs, extend r (d, v) = c := by
  simp [extendAll, List.mem_map, List.mem_product, and_assoc]

theorem combinations_concat {roots : List Root} (hvs : Dictionary.get? r.entity tables = some vs)
    (h : combinations tables roots = .ok all) :
    combinations tables (roots ++ [r]) = .ok (extendAll r vs all) := by
  induction roots generalizing all with
  | nil =>
    cases h
    rw [List.nil_append, combinations_singleton hvs, extendAll_cons]
    exact congrArg Except.ok (List.append_nil _).symm
  | cons root roots ih =>
    rw [combinations] at h
    split at h
    · cases h
    · rename_i rows hrows
      obtain ⟨more, hmore, h⟩ := bind_eq_ok_iff.1 h
      cases h
      rw [List.cons_append, combinations, hrows, ih hmore]
      refine congrArg Except.ok ?_
      simp [extendAll, extend, SProd.sprod, List.product, List.map_flatMap, List.flatMap_map,
        List.flatMap_assoc, Function.comp_def]

section
variable {x : Combination × Value} {w : Value}

theorem row_extend {a : String} (h : row x.1 a = .ok w) : row (extend r x) a = .ok w := by
  unfold row at h ⊢
  split at h
  · rename_i hfind
    rw [extend, List.find?_append, hfind]
    exact h
  · cases h

theorem resolve_extend {e : Expression} (h : resolve b x.1 e = .ok w) :
    resolve b (extend r x) e = .ok w := by
  cases e with
  | literal v => exact h
  | parameter p => exact h
  | path p =>
    obtain ⟨v, hv, rfl⟩ := map_eq_ok_iff.1 h
    rw [resolve, row_extend hv]
    rfl

theorem answer_extend {a : Option String} (h : answer x.1 a = .ok w) :
    answer (extend r x) a = .ok w := by
  cases a with
  | some a => exact row_extend h
  | none =>
    obtain ⟨c, v⟩ := x
    cases c with
    | nil => cases h
    | cons y c => exact h

/-- A condition that has its operands cannot tell the rows of one more source apart. -/
theorem satisfies_extend {p : Predicate} (h : ∀ e ∈ p.expressions, ∃ w, resolve b x.1 e = .ok w) :
    satisfies b (extend r x) p = satisfies b x.1 p := by
  refine satisfies_congr fun e he => ?_
  obtain ⟨w, hw⟩ := h e he
  rw [resolve_extend hw, hw]
  exact .refl _

end

theorem satisfying_extend {p : Predicate} (hvs : vs ≠ [])
    (h : ∀ c ∈ cs, ∀ e ∈ p.expressions, ∃ w, resolve b c e = .ok w) :
    satisfying b p (extendAll r vs cs) = (satisfying b p cs).map (extendAll r vs) := by
  induction cs with
  | nil => rfl
  | cons c rest ih =>
    have hc (v : Value) : satisfies b (extend r (c, v)) p = satisfies b c p :=
      satisfies_extend (h c (.head _))
    rw [extendAll_cons, satisfying_append, ih fun d hd => h d (.tail _ hd), satisfying]
    cases hkeep : satisfies b c p with
    | error e =>
      obtain ⟨v, more, rfl⟩ := List.exists_cons_of_ne_nil hvs
      rw [List.map_cons, satisfying, hc, hkeep]
      rfl
    | ok keep =>
      have hfirst : satisfying b p (vs.map fun v => extend r (c, v)) =
          .ok ((vs.map fun v => extend r (c, v)).filter fun _ => keep) := by
        refine satisfying_eq_filter fun d hd => ?_
        obtain ⟨v, -, rfl⟩ := List.mem_map.1 hd
        rw [hc, hkeep]
      rw [hfirst, ok_bind, ok_bind]
      cases satisfying b p rest with
      | error e => rfl
      | ok kept => cases keep <;> simp [Except.map, extendAll_cons]

theorem map_extend {γ : Type} {f : Combination → γ}
    (h : ∀ c ∈ cs, ∀ v, f (extend r (c, v)) = f c) :
    (extendAll r vs cs).map f = (cs.map f).flatMap (List.replicate vs.length) := by
  induction cs with
  | nil => rfl
  | cons c rest ih =>
    have hfirst : (vs.map fun v => extend r (c, v)).map f = List.replicate vs.length (f c) := by
      rw [List.map_map, ← List.map_const]
      exact List.map_congr_left fun v _ => h c (.head _) v
    rw [extendAll_cons, List.map_append, hfirst, ih fun d hd => h d (.tail _ hd), List.map_cons,
      List.flatMap_cons]

theorem filter_extend {f : Combination → Bool} (h : ∀ c ∈ cs, ∀ v, f (extend r (c, v)) = f c) :
    (extendAll r vs cs).filter f = extendAll r vs (cs.filter f) := by
  rw [extendAll, extendAll, ← StableSort.filter_product, List.filter_map]
  refine congrArg _ (List.filter_congr fun x hx => ?_)
  obtain ⟨hc, -⟩ := List.mem_product.1 hx
  exact h x.1 hc x.2

section
variable {key : Combination → List Value} {value : Combination → Value} {distinct : Bool}
  (hk : 0 < vs.length) (hvalue : ∀ c ∈ cs, ∀ v, value (extend r (c, v)) = value c)
include hk hvalue

theorem tally_extend : tally value distinct (extendAll r vs cs) =
    if distinct then tally value distinct cs else tally value distinct cs * vs.length := by
  unfold tally
  split
  · rw [map_extend hvalue, ← firsts_same_eq_eraseDups, firsts_flatMap_replicate Value.same_self hk,
      firsts_same_eq_eraseDups]
  · rw [extendAll, List.length_map, List.length_product]

theorem tallies_extend (hkey : ∀ c ∈ cs, ∀ v, key (extend r (c, v)) = key c) :
    tallies key value distinct (extendAll r vs cs) =
      if distinct then tallies key value distinct cs
      else (tallies key value distinct cs).map (· * vs.length) := by
  have hkeys : ((extendAll r vs cs).map key).eraseDups = (cs.map key).eraseDups := by
    rw [map_extend hkey, ← firsts_sameItems_eq_eraseDups,
      firsts_flatMap_replicate Value.sameItems_self hk, firsts_sameItems_eq_eraseDups]
  have hgroup (k : List Value) :
      tally value distinct ((extendAll r vs cs).filter fun c => key c == k) =
        if distinct then tally value distinct (cs.filter fun c => key c == k)
        else tally value distinct (cs.filter fun c => key c == k) * vs.length := by
    rw [filter_extend fun c hc v => by rw [hkey c hc v]]
    exact tally_extend hk fun c hc => hvalue c (List.mem_filter.1 hc).1
  unfold tallies
  rw [hkeys]
  simp only [hgroup]
  cases distinct <;> simp

theorem countsOf_extend {q : Query} (hkey : ∀ c ∈ cs, ∀ v, key (extend r (c, v)) = key c) :
    countsOf q key value distinct (extendAll r vs cs) =
      if distinct then countsOf q key value distinct cs
      else (countsOf q key value distinct cs).map (· * vs.length) := by
  unfold countsOf
  split
  · rw [tally_extend hk hvalue]
    cases distinct <;> rfl
  · exact tallies_extend hk hvalue hkey

end

end

section
variable {tables : Tables} {q : Query} {b : Bindings} {r : Root} {vs : List Value}
  {all kept cs : List Combination} {a : Option String} {c : Combination}

theorem hasAlias_addRootAs {s : String} (h : q.hasAlias s) (entity aliasName : String) :
    (q.addRootAs entity aliasName).1.hasAlias s := by
  rw [Query.hasAlias, Query.addRootAs, List.any_append]
  exact Bool.or_eq_true_iff.2 (.inl h)

theorem Valid.addRootAs (h : Valid tables q) (hvs : Dictionary.get? r.entity tables = some vs) :
    Valid tables (q.addRootAs r.entity r.aliasName).1 := by
  refine ⟨by simp [Query.addRootAs], fun x hx => ?_, fun s hs =>
    hasAlias_addRootAs (h.aliases s hs) _ _⟩
  obtain hx | hx := List.mem_append.1 hx
  · exact h.entities x hx
  · obtain rfl := List.mem_singleton.1 hx
    rw [hvs]
    rfl

theorem Ready.addRootAs (h : Ready tables q b cs)
    (hvs : Dictionary.get? r.entity tables = some vs) :
    Ready tables (q.addRootAs r.entity r.aliasName).1 b (extendAll r vs cs) := by
  refine ⟨h.valid.addRootAs hvs, h.bound, fun c hc => ?_⟩
  obtain ⟨d, hd, v, -, rfl⟩ := mem_extendAll.1 hc
  rw [extend, List.map_append, h.sources d hd]
  rfl

theorem Ready.resolve_extend (h : Ready tables q b cs) {e : Expression} (he : e ∈ q.expressions)
    (hc : c ∈ cs) (v : Value) :
    Evaluation.resolve b (extend r (c, v)) e = Evaluation.resolve b c e := by
  obtain ⟨w, hw⟩ := h.resolve he hc
  rw [hw]
  exact Evaluation.resolve_extend hw

theorem Ready.answerOf_extend (h : Ready tables q b cs) (ha : ∀ s ∈ a, q.hasAlias s) (hc : c ∈ cs)
    (v : Value) : answerOf a (extend r (c, v)) = answerOf a c := by
  obtain ⟨w, hw⟩ := h.exists_answer ha hc
  rw [answerOf, answerOf, hw, answer_extend hw]

theorem Ready.keyOf_extend (h : Ready tables q b cs) {keys : List Expression}
    (hkeys : ∀ e ∈ keys, e ∈ q.expressions) (hc : c ∈ cs) (v : Value) :
    keyOf b keys (extend r (c, v)) = keyOf b keys c :=
  List.filterMap_congr fun e he => by rw [h.resolve_extend (hkeys e he) hc v]

theorem Ready.matching_extend (h : Ready tables q b all) (hvs : vs ≠ []) :
    matching b q.restriction (extendAll r vs all) =
      (matching b q.restriction all).map (extendAll r vs) := by
  unfold matching
  split
  · rfl
  · rename_i p hp
    exact satisfying_extend hvs fun c hc e he => h.resolve (mem_expressions.2 (.inl ⟨p, hp, he⟩)) hc

theorem Ready.sorted_extend (h : Ready tables q b kept) (hsortable : Sortable b q.orders kept)
    (hvs : Dictionary.get? r.entity tables = some vs) (hcs : sorted b q.orders kept = .ok cs) :
    sorted b q.orders (extendAll r vs kept) = .ok (extendAll r vs cs) := by
  have hkeys : ∀ c ∈ kept, ∀ v,
      keysOf b q.orders (extend r (c, v)) = keysOf b q.orders c := fun c hc v =>
    List.filterMap_congr fun o ho => by
      rw [h.resolve_extend (mem_expressions_of_order ho) hc v]
  have hprecedes : ∀ x ∈ kept ×ˢ vs, ∀ y ∈ kept ×ˢ vs,
      precedesBy b q.orders (extend r x) (extend r y) = precedesBy b q.orders x.1 y.1 := by
    intro x hx y hy
    have hx' := hkeys x.1 (List.mem_product.1 hx).1 x.2
    have hy' := hkeys y.1 (List.mem_product.1 hy).1 y.2
    rw [precedesBy, precedesBy, hx', hy']
  refine (h.addRootAs hvs).sorted_eq_ok_iff.2 ?_
  calc StableSort.sort (precedesBy b q.orders) ((kept ×ˢ vs).map (extend r))
    _ = (StableSort.sort (fun x y => precedesBy b q.orders (extend r x) (extend r y))
          (kept ×ˢ vs)).map (List.map (extend r)) := StableSort.sort_map ..
    _ = (StableSort.sort (fun x y => precedesBy b q.orders x.1 y.1) (kept ×ˢ vs)).map
          (List.map (extend r)) := by rw [StableSort.sort_congr hprecedes]
    _ = some (extendAll r vs cs) := by
      rw [(h.rankedOn hsortable).sort_product, h.sorted_eq_ok_iff.1 hcs]
      rfl

end

def answerOfNone (q : Query) : List Value :=
  match q.selection with
  | some (.count _ _) => if q.groupBy = [] then [.integer 0] else []
  | _ => []

/-- The answer `us` becomes `ws` when each combination is there `n` times. -/
def Multiplied (q : Query) (n : Nat) (us ws : List Value) : Prop :=
  match q.selection with
  | some (.count _ distinct) => ∃ counts : List Nat, us = counts.map (fun m : Nat => .integer m) ∧
      ws = (if distinct then counts else counts.map (· * n)).map fun m : Nat => .integer m
  | _ => ws = if q.distinct then us else us.flatMap (List.replicate n)

section
variable {tables : Tables} {q : Query} {b : Bindings} {r : Root} {vs us : List Value}
  {cs : List Combination} {a : Option String}

theorem results_nil (q : Query) (b : Bindings) : results q b [] = .ok (answerOfNone q) := by
  unfold results answerOfNone
  split
  · rename_i a distinct hsel
    rw [hsel, grouped]
    by_cases hgroups : q.groupBy = []
    · rw [if_pos (by simpa using hgroups), if_pos hgroups]
      cases distinct <;> rfl
    · rw [if_neg (by simpa using hgroups), if_neg hgroups]
      rfl
  · rename_i a hsel
    rw [hsel]
    cases q.distinct <;> rfl
  · rename_i hsel
    rw [hsel]
    cases q.distinct <;> rfl

theorem Ready.rows_eq (h : Ready tables q b cs) (ha : ∀ s ∈ a, q.hasAlias s) (distinct : Bool) :
    rows cs a distinct = .ok (if distinct then firsts Value.same [] (cs.map (answerOf a))
      else cs.map (answerOf a)) := by
  rw [rows, mapM_eq_map fun c hc => h.answer_eq ha hc]
  rfl

theorem Ready.rows_extend (h : Ready tables q b cs) (ha : ∀ s ∈ a, q.hasAlias s)
    (hvs : Dictionary.get? r.entity tables = some vs) (hk : 0 < vs.length) {distinct : Bool}
    (hus : rows cs a distinct = .ok us) : rows (extendAll r vs cs) a distinct =
      .ok (if distinct then us else us.flatMap (List.replicate vs.length)) := by
  have ha' : ∀ s ∈ a, (q.addRootAs r.entity r.aliasName).1.hasAlias s := fun s hs =>
    hasAlias_addRootAs (ha s hs) _ _
  rw [h.rows_eq ha] at hus
  cases hus
  rw [(h.addRootAs hvs).rows_eq ha', map_extend fun c hc v => h.answerOf_extend ha hc v]
  cases distinct with
  | true => simp only [if_true, firsts_flatMap_replicate Value.same_self hk]
  | false => rfl

theorem Ready.results_extend (h : Ready tables q b cs)
    (hvs : Dictionary.get? r.entity tables = some vs) (hk : 0 < vs.length)
    (hus : results q b cs = .ok us) : ∃ ws,
      results (q.addRootAs r.entity r.aliasName).1 b (extendAll r vs cs) = .ok ws ∧
        Multiplied q vs.length us ws := by
  let q' := (q.addRootAs r.entity r.aliasName).1
  have hrows {s : Option String} (hsel : q.selection = s.map .root) (hs : ∀ x ∈ s, q.hasAlias x) :
      ∃ ws, results q' b (extendAll r vs cs) = .ok ws ∧ Multiplied q vs.length us ws := by
    have hresults {x : Query} (hx : x.selection = s.map .root) (ds : List Combination) :
        results x b ds = rows ds s x.distinct := by
      unfold results
      rw [hx]
      cases s <;> rfl
    rw [hresults hsel] at hus
    refine ⟨_, (hresults hsel _).trans (h.rows_extend hs hvs hk hus), ?_⟩
    unfold Multiplied
    rw [hsel]
    cases s <;> rfl
  match hsel : q.selection with
  | none => exact hrows (s := none) hsel nofun
  | some (.root a) =>
    refine hrows (s := some a) hsel fun x hx => ?_
    cases hx
    exact h.valid.aliases a (mem_referredAliases.2 (.inr (.inl hsel)))
  | some (.count a distinct) =>
    have ha := h.valid.hasAlias_of_count hsel
    rw [h.results_count hsel] at hus
    cases hus
    refine ⟨_, (h.addRootAs hvs).results_count hsel, ?_⟩
    unfold Multiplied
    rw [hsel]
    refine ⟨_, rfl, congrArg _ ?_⟩
    exact countsOf_extend hk (fun c hc v => h.answerOf_extend ha hc v) fun c hc v =>
      h.keyOf_extend (fun e he => mem_expressions_of_groupBy he) hc v

/-- One more source to which a valid query does not refer multiplies. With a row or more in it the
query fails as it does without it, or each row is answered as often in its place, once when rows are
distinct, and each count is as many times as large, or the same when different rows are counted. With
no row in it no row is answered, no group, or the single count zero. The keys that the query orders by
hold no number but signed 64-bit integers. An alias that is taken may be given to the source, since
the query goes on reading the first source with it. -/
theorem execute_addRootAs (hvalid : Valid tables q)
    (hbound : ∀ p ∈ q.parameters, (b.value? p.id).isSome)
    (hkeys : ∀ all ∈ (combinations tables q.roots).toOption, ∀ c ∈ all, Meets q b c →
      ∀ o ∈ q.orders, ∀ v ∈ (resolve b c o.expression).toOption, v.Exact)
    (hvs : Dictionary.get? r.entity tables = some vs) :
    let q' := (q.addRootAs r.entity r.aliasName).1
    (vs.length = 0 → execute tables q' b = .ok (answerOfNone q)) ∧
    (0 < vs.length → (∀ e, execute tables q b = .error e → execute tables q' b = .error e) ∧
      ∀ us, execute tables q b = .ok us →
        ∃ ws, execute tables q' b = .ok ws ∧ Multiplied q vs.length us ws) := by
  intro q'
  obtain ⟨all, hall⟩ := exists_combinations hvalid.entities
  have hready : Ready tables q b all := ⟨hvalid, hbound, sources_of_mem_combinations hall⟩
  have hvalid' : Valid tables q' := hvalid.addRootAs hvs
  have hall' : combinations tables q'.roots = .ok (extendAll r vs all) :=
    combinations_concat hvs hall
  refine ⟨fun hnone => ?_, fun hk => ?_⟩
  · obtain rfl := List.eq_nil_of_length_eq_zero hnone
    have hmatching : matching b q'.restriction (extendAll r [] all) =
        .ok [] := by
      rw [extendAll_nil_right]
      cases q'.restriction <;> rfl
    obtain ⟨cs, hcs⟩ := exists_sorted_of_ordered (not_disordered_of_short fun kept hkept => by
      rw [matched_eq_matching hvalid' hbound hall', hmatching] at hkept
      cases hkept
      exact Nat.zero_le _) ((matched_eq_matching hvalid' hbound hall').trans hmatching)
    obtain ⟨hperm, -, hexecute⟩ := execute_of_sorted hvalid' hbound hall' hmatching hcs
    obtain rfl := List.perm_nil.1 hperm
    exact hexecute.trans (results_nil q' b)
  · have hmatching := hready.matching_extend (r := r) (List.ne_nil_of_length_pos hk)
    cases hkept : matching b q.restriction all with
    | error e =>
      rw [hkept] at hmatching
      rw [execute_of_matching_error hvalid hbound hall hkept,
        execute_of_matching_error hvalid' hbound hall' hmatching]
      exact ⟨fun _ he => he, nofun⟩
    | ok kept =>
      rw [hkept] at hmatching
      have hmatched := hready.subset (matching_sublist hkept).subset
      have hsortable : Sortable b q.orders kept := sortable_of_exact fun c hc => by
        obtain ⟨hc, hmeets⟩ := List.mem_filter.1 (matching_eq_ok hkept ▸ hc)
        exact hkeys all (by rw [hall]; rfl) c hc (of_decide_eq_true hmeets)
      obtain ⟨cs, hcs⟩ := hmatched.exists_sorted hsortable
      obtain ⟨-, hsorted, hexecute⟩ := execute_of_sorted hvalid hbound hall hkept hcs
      obtain ⟨-, -, hexecute'⟩ := execute_of_sorted hvalid' hbound hall' hmatching
        (hmatched.sorted_extend hsortable hvs hcs)
      obtain ⟨us, hus⟩ := hsorted.exists_results
      rw [hexecute, hexecute', hus]
      refine ⟨fun e he => ?_, fun us' he => ?_⟩
      · cases he
      · cases he
        exact hsorted.results_extend hvs hk hus

/-- Over a source with two rows each row comes twice and each count doubles; over one with no row there
is no group. -/
theorem execute_addRootAs_pair :
    let keyed (key : Int) (name : String) : Value :=
      .object [("key", .integer key), ("name", .string name)]
    let tables : Tables := [("E", [keyed 1 "a", keyed 2 "b", keyed 2 "c", keyed 0 "d"]),
      ("F", [.null, .bool true]), ("G", [])]
    let q : Query := {
      result := .entity
      roots := [⟨"E", "e"⟩]
      restriction := some (.comparison .ne (.path ⟨"e", some "key"⟩) (.literal (.integer 0)))
      groupBy := [.path ⟨"e", some "key"⟩]
      orders := [⟨.path ⟨"e", some "key"⟩, .desc⟩] }
    let counted := q.select (.count "e" false)
    (∃ ws, execute tables (q.addRootAs "F" "f").1 [] = .ok ws ∧
      ws = [keyed 2 "b", keyed 2 "c", keyed 1 "a"].flatMap (List.replicate 2)) ∧
    (∃ ws, execute tables (counted.addRootAs "F" "f").1 [] = .ok ws ∧
      Multiplied counted 2 [.integer 2, .integer 1] ws) ∧
    execute tables (counted.addRootAs "G" "g").1 [] = .ok [] := by
  intro keyed tables q counted
  have hvalid : Valid tables q := validate_eq_ok_iff.1 rfl
  have hcounted : Valid tables counted := validate_eq_ok_iff.1 rfl
  have hrows := execute_addRootAs (r := ⟨"F", "f"⟩) (b := []) hvalid (by decide) (by decide +kernel)
    rfl
  have hcounts := execute_addRootAs (r := ⟨"F", "f"⟩) (b := []) hcounted (by decide)
    (by decide +kernel) rfl
  have hnone := execute_addRootAs (r := ⟨"G", "g"⟩) (b := []) hcounted (by decide)
    (by decide +kernel) rfl
  exact ⟨(hrows.2 (by decide)).2 _ rfl, (hcounts.2 (by decide)).2 _ rfl, hnone.1 rfl⟩

end

end EntityQuery.Evaluation
