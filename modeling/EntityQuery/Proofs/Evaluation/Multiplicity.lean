import EntityQuery.Proofs.Evaluation.Sorted
/-! How often a row is answered. A combination is picked by one row index for each source; a query
without counts answers once for each index vector whose combination satisfies its restriction, or
once for all that yield the same row when it is distinct. Its orders change the order alone. -/
namespace EntityQuery.Evaluation
open Criteria

section
variable {tables : Tables} {roots : List Root} {cs : List Combination}

def rowsOf (tables : Tables) (entity : String) : List Value :=
  (Dictionary.get? entity tables).getD []

/-- The combination that row indexes pick, one of each source. -/
def pick? (tables : Tables) : List Root → List Nat → Option Combination
  | [], [] => some []
  | root :: roots, i :: ix =>
    (rowsOf tables root.entity)[i]?.bind fun v => (pick? tables roots ix).map ((root, v) :: ·)
  | _, _ => none

/-- All index vectors; the indexes of the last source change fastest. -/
def indexes (tables : Tables) : List Root → List (List Nat)
  | [] => [[]]
  | root :: roots =>
    (List.range (rowsOf tables root.entity).length).flatMap fun i =>
      (indexes tables roots).map (i :: ·)

theorem indexes_pairwise (tables : Tables) (roots : List Root) :
    (indexes tables roots).Pairwise (· < ·) := by
  induction roots with
  | nil => exact List.pairwise_singleton _ _
  | cons root roots ih =>
    refine List.pairwise_flatMap.2 ⟨fun i _ => ?_, ?_⟩
    · exact List.pairwise_map.2 (ih.imp fun h => List.cons_lt_cons_iff.2 (.inr ⟨rfl, h⟩))
    · refine List.pairwise_lt_range.imp fun h ix hix jx hjx => ?_
      obtain ⟨-, -, rfl⟩ := List.mem_map.1 hix
      obtain ⟨-, -, rfl⟩ := List.mem_map.1 hjx
      exact List.cons_lt_cons_iff.2 (.inl h)

theorem mem_indexes {ix : List Nat} :
    ix ∈ indexes tables roots ↔ (pick? tables roots ix).isSome := by
  induction roots generalizing ix with
  | nil => cases ix <;> simp [indexes, pick?]
  | cons root roots ih =>
    cases ix with
    | nil => simp [indexes, pick?]
    | cons i ix =>
      simp [indexes, pick?, ih, Option.isSome_bind, Option.any_eq_true, List.getElem?_eq_some_iff]

theorem map_pick?_indexes (h : combinations tables roots = .ok cs) :
    (indexes tables roots).map (pick? tables roots) = cs.map some := by
  induction roots generalizing cs with
  | nil =>
    cases h
    rfl
  | cons root roots ih =>
    rw [combinations] at h
    split at h
    · cases h
    · rename_i rows hrows
      obtain ⟨more, hmore, h⟩ := bind_eq_ok_iff.1 h
      cases h
      have hrowsOf : rowsOf tables root.entity = rows := by rw [rowsOf, hrows, Option.getD_some]
      have hpick (i : Fin rows.length) :
          ((indexes tables roots).map (i.val :: ·)).map (pick? tables (root :: roots)) =
            (more.map ((root, rows.get i) :: ·)).map some := by
        calc ((indexes tables roots).map (i.val :: ·)).map (pick? tables (root :: roots))
          _ = ((indexes tables roots).map (pick? tables roots)).map
                (Option.map ((root, rows.get i) :: ·)) := by
              simp [pick?, hrowsOf]
          _ = (more.map ((root, rows.get i) :: ·)).map some := by
              rw [ih hmore]
              simp
      rw [indexes, hrowsOf, ← List.map_coe_finRange_eq_range, List.flatMap_map, List.map_flatMap,
        List.flatMap_congr fun i _ => hpick i, ← List.map_flatMap]
      conv_rhs => rw [← List.map_get_finRange rows, List.flatMap_map]

end

/-- The position of the source that a query selects, the first one when it selects none. -/
def selectedIndex (q : Query) : Nat :=
  match q.selection with
  | some (.root a) | some (.count a _) => q.roots.findIdx (·.aliasName = a)
  | none => 0

def component? (q : Query) (c : Combination) : Option Value :=
  (c.map (·.2))[selectedIndex q]?

/-- The row that an index vector contributes: that of the source selected, when the combination
satisfies the restriction. -/
def yield? (tables : Tables) (q : Query) (b : Bindings) (ix : List Nat) : Option Value :=
  (pick? tables q.roots ix).bind fun c => if Meets q b c then component? q c else none

/-- How many index vectors yield a row that is the same as `v`. -/
noncomputable def multiplicity (tables : Tables) (q : Query) (b : Bindings) (v : Value) : ℕ∞ :=
  {ix | ∃ w ∈ yield? tables q b ix, w.same v}.encard

section
variable {tables : Tables} {q : Query} {b : Bindings} {all cs : List Combination}

theorem Ready.answer_eq_component (h : Ready tables q b cs) {a : Option String}
    (ha : q.selection = a.map .root) {c : Combination} (hc : c ∈ cs) :
    ∃ v, answer c a = .ok v ∧ component? q c = some v := by
  have hroots : c.map (·.1) = q.roots := h.sources c hc
  cases a with
  | none =>
    obtain ⟨r, rest, hq⟩ := List.exists_cons_of_ne_nil h.valid.roots
    obtain ⟨⟨-, v⟩, more, rfl, -, -⟩ := List.map_eq_cons_iff.1 (hroots.trans hq)
    refine ⟨v, rfl, ?_⟩
    rw [component?, selectedIndex, ha]
    rfl
  | some s =>
    have halias : q.hasAlias s := h.valid.aliases s (mem_referredAliases.2 (.inr (.inl ha)))
    obtain ⟨v, hv⟩ := h.row halias hc
    refine ⟨v, hv, ?_⟩
    have hindex : selectedIndex q = c.findIdx (·.1.aliasName = s) := by
      rw [selectedIndex, ha, ← hroots]
      exact List.findIdx_map ..
    rw [component?, hindex, List.getElem?_map, ← List.find?_eq_getElem?_findIdx]
    rw [Evaluation.row] at hv
    split at hv
    · rename_i hfind
      cases hv
      rw [hfind]
      rfl
    · cases hv

def answered (q : Query) (vs : List Value) : List Value :=
  if q.distinct then firsts Value.same [] vs else vs

theorem countP_answered (q : Query) (vs : List Value) (v : Value) :
    (answered q vs).countP (·.same v) =
      if q.distinct then min (vs.countP (·.same v)) 1 else vs.countP (·.same v) := by
  unfold answered
  split
  · exact countP_firsts Value.same_self Value.same_comm (fun _ _ _ => Value.same_trans) vs v
  · rfl

theorem Ready.results_eq (h : Ready tables q b cs)
    (hselection : ∀ a distinct, q.selection ≠ some (.count a distinct)) :
    results q b cs = .ok (answered q (cs.filterMap (component? q))) := by
  have hrows {a : Option String} (ha : q.selection = a.map .root) :
      rows cs a q.distinct = .ok (answered q (cs.filterMap (component? q))) := by
    have hanswers : cs.mapM (answer · a) = .ok (cs.filterMap (component? q)) :=
      mapM_eq_filterMap fun c hc => h.answer_eq_component ha hc
    rw [rows, hanswers]
    rfl
  unfold results
  split
  · rename_i a distinct hsel
    exact absurd hsel (hselection a distinct)
  · rename_i a hsel
    exact hrows (a := some a) hsel
  · rename_i hsel
    exact hrows (a := none) hsel

theorem filterMap_yield? (h : combinations tables q.roots = .ok all) :
    (indexes tables q.roots).filterMap (yield? tables q b) =
      (all.filter fun c => decide (Meets q b c)).filterMap (component? q) := by
  have hpicked := congrArg (List.filterMap fun c? : Option Combination =>
    c?.bind fun c => if Meets q b c then component? q c else none) (map_pick?_indexes h)
  rw [List.filterMap_map, List.filterMap_map] at hpicked
  refine hpicked.trans ?_
  rw [List.filterMap_filter]
  refine List.filterMap_congr fun c _ => ?_
  simp

theorem execute_eq_yields (hvalid : Valid tables q)
    (hselection : ∀ a distinct, q.selection ≠ some (.count a distinct))
    (hbound : ∀ p ∈ q.parameters, (b.value? p.id).isSome) (hfit : PatternsFit tables q b)
    (hordered : ¬ Disordered tables q b) : ∃ vs, vs.Perm ((indexes tables q.roots).filterMap
        (yield? tables q b)) ∧
      (q.orders = [] → vs = (indexes tables q.roots).filterMap (yield? tables q b)) ∧
      execute tables q b = .ok (answered q vs) := by
  obtain ⟨all, cs, hall, hcs, hsorted⟩ := exists_tuples hvalid hbound hfit hordered
  refine ⟨cs.filterMap (component? q), ?_, fun horders => ?_, ?_⟩
  · rw [filterMap_yield? hall]
    exact (sorted_perm hsorted).filterMap _
  · rw [horders] at hsorted
    cases hsorted
    rw [filterMap_yield? hall]
  · rw [execute_eq, hcs, ok_bind, (tuples_eq_ok hcs).results_eq hselection]

theorem execute_orderedBy_nil {vs : List Value}
    (hselection : ∀ a distinct, q.selection ≠ some (.count a distinct))
    (h : execute tables q b = .ok vs) : ∃ ws, execute tables (q.orderedBy []) b = .ok ws ∧
      ∀ v, ws.countP (·.same v) = vs.countP (·.same v) := by
  rw [execute_eq] at h
  obtain ⟨cs, hcs, hvs⟩ := bind_eq_ok_iff.1 h
  rw [(tuples_eq_ok hcs).results_eq hselection] at hvs
  cases hvs
  obtain ⟨ds, hds, hperm⟩ := tuples_orderedBy_nil hcs
  refine ⟨_, by rw [execute_eq, hds, ok_bind, (tuples_eq_ok hds).results_eq hselection],
    fun v => ?_⟩
  have hcount : (cs.filterMap (component? q)).countP (·.same v) =
      (ds.filterMap (component? q)).countP (·.same v) :=
    (hperm.filterMap _).countP_eq _
  rw [countP_answered, countP_answered q, hcount]
  rfl

theorem mem_indexes_of_yield? {ix : List Nat} {w : Value} (h : yield? tables q b ix = some w) :
    ix ∈ indexes tables q.roots := by
  obtain ⟨c, hc, -⟩ := Option.bind_eq_some_iff.1 h
  exact mem_indexes.2 (by rw [hc]; rfl)

theorem countP_yields (v : Value) :
    (((indexes tables q.roots).filterMap (yield? tables q b)).countP (·.same v) : ℕ∞) =
      multiplicity tables q b v := by
  let p (ix : List Nat) : Bool := ((yield? tables q b ix).map (·.same v)).getD false
  have hset : {ix | ∃ w ∈ yield? tables q b ix, w.same v} =
      (((indexes tables q.roots).filter p).toFinset : Set (List Nat)) := by
    ext ix
    cases hw : yield? tables q b ix with
    | none => simp [p, hw]
    | some w =>
      simp [p, hw, mem_indexes_of_yield? hw]
  have hnodup : ((indexes tables q.roots).filter p).Nodup :=
    ((indexes_pairwise tables q.roots).imp ne_of_lt).filter _
  rw [multiplicity, hset, Set.encard_coe_eq_coe_finsetCard, List.toFinset_card_of_nodup hnodup,
    List.countP_filterMap, List.countP_eq_length_filter]

end

section
variable {tables : Tables} {q : Query} {b : Bindings}

theorem exists_execute_countP (hvalid : Valid tables q)
    (hselection : ∀ a distinct, q.selection ≠ some (.count a distinct))
    (hbound : ∀ p ∈ q.parameters, (b.value? p.id).isSome) (hfit : PatternsFit tables q b)
    (hordered : ¬ Disordered tables q b) : ∃ vs, execute tables q b = .ok vs ∧
    ∀ v, (vs.countP (·.same v) : ℕ∞) =
      if q.distinct then min (multiplicity tables q b v) 1 else multiplicity tables q b v := by
  obtain ⟨vs, hperm, -, hvs⟩ := execute_eq_yields hvalid hselection hbound hfit hordered
  refine ⟨_, hvs, fun v => ?_⟩
  have hcount : (vs.countP (·.same v) : ℕ∞) = multiplicity tables q b v := by
    rw [hperm.countP_eq, countP_yields]
  rw [countP_answered, ← hcount]
  split
  · norm_cast
  · rfl

theorem yields_in_order (tables : Tables) (q : Query) (b : Bindings) :
    ∃ ixs : List (List Nat), ixs.Pairwise (· < ·) ∧
      (∀ ix, ix ∈ ixs ↔ (yield? tables q b ix).isSome) ∧
      ixs.map (yield? tables q b) =
        ((indexes tables q.roots).filterMap (yield? tables q b)).map some := by
  refine ⟨(indexes tables q.roots).filter fun ix => (yield? tables q b ix).isSome,
    (indexes_pairwise tables q.roots).filter _, fun ix => ?_, ?_⟩
  · rw [List.mem_filter, and_iff_right_iff_imp]
    intro hix
    obtain ⟨w, hw⟩ := Option.isSome_iff_exists.1 hix
    exact mem_indexes_of_yield? hw
  · rw [List.map_filterMap_some_eq_filter_map_isSome, List.filter_map]
    rfl

/-- A valid query without counts answers the matching combinations, none lost and none repeated: a
row is there once for each index vector that yields it, or once for all when the query is distinct.
The orders do not change how often, and without orders the rows come in the order of their index
vectors, a distinct query keeping the first of those that are the same. There is no answer when the
sort notices that the orders contradict themselves; that takes more than twenty combinations, and
orders that are not consistent on them. -/
theorem execute_answers_each_match (hvalid : Valid tables q)
    (hselection : ∀ a distinct, q.selection ≠ some (.count a distinct))
    (hbound : ∀ p ∈ q.parameters, (b.value? p.id).isSome) (hfit : PatternsFit tables q b) :
    (Disordered tables q b → execute tables q b = .error (.panicked .orderViolation) ∧
      ∃ kept, matched tables q b = .ok kept ∧ 20 < kept.length ∧ ¬ Sortable b q.orders kept) ∧
    (¬ Disordered tables q b → ∃ vs, execute tables q b = .ok vs ∧
      (∀ v, (vs.countP (·.same v) : ℕ∞) =
        if q.distinct then min (multiplicity tables q b v) 1 else multiplicity tables q b v) ∧
      (∀ orders, Valid tables (q.orderedBy orders) →
        (∀ p ∈ (q.orderedBy orders).parameters, (b.value? p.id).isSome) →
        ¬ Disordered tables (q.orderedBy orders) b →
          ∃ ws, execute tables (q.orderedBy orders) b = .ok ws ∧
            ∀ v, ws.countP (·.same v) = vs.countP (·.same v)) ∧
      (q.orders = [] → ∃ (ixs : List (List Nat)) (us : List Value), ixs.Pairwise (· < ·) ∧
        (∀ ix, ix ∈ ixs ↔ (yield? tables q b ix).isSome) ∧
        ixs.map (yield? tables q b) = us.map some ∧
        vs = if q.distinct then us.eraseDups else us)) := by
  refine ⟨fun hdisordered => ⟨execute_of_disordered hdisordered, hdisordered.length_gt⟩,
    fun hordered => ?_⟩
  obtain ⟨vs, hvs, hcount⟩ := exists_execute_countP hvalid hselection hbound hfit hordered
  refine ⟨vs, hvs, hcount, fun orders hvalid' hbound' hordered' => ?_, fun horders => ?_⟩
  · obtain ⟨ws, hws, hcount'⟩ := exists_execute_countP (q := q.orderedBy orders) hvalid' hselection
      hbound' hfit hordered'
    refine ⟨ws, hws, fun v => ?_⟩
    exact_mod_cast (hcount' v).trans (hcount v).symm
  · obtain ⟨us, -, hus, hexecute⟩ := execute_eq_yields hvalid hselection hbound hfit hordered
    obtain ⟨ixs, hsorted, hmem, hyields⟩ := yields_in_order tables q b
    refine ⟨ixs, us, hsorted, hmem, by rw [hyields, hus horders], ?_⟩
    rw [hexecute] at hvs
    cases hvs
    rw [answered, firsts_same_eq_eraseDups]

/-- Three of the six combinations match, and two of them yield the same row. -/
theorem execute_answers_each_match_joined :
    let keyed (key name : String) : Value := .object [("key", .string key), ("name", .string name)]
    let tables : Tables := [("E", [keyed "a" "x", keyed "a" "x", keyed "b" "y"]),
      ("F", [keyed "b" "z", keyed "a" "z"])]
    let q : Query := {
      result := .entity
      roots := [⟨"E", "e"⟩, ⟨"F", "f"⟩]
      restriction := some (.and [
        .comparison .eq (.path ⟨"e", some "key"⟩) (.path ⟨"f", some "key"⟩),
        .like (.path ⟨"f", some "name"⟩) (.parameter ⟨.named "p", .string, none⟩)])
      distinct := true }
    let b : Bindings := [(.named "p", .string "z%")]
    ∃ vs, execute tables q b = .ok vs ∧
      (vs.countP (·.same (keyed "a" "x")) : ℕ∞) = min (multiplicity tables q b (keyed "a" "x")) 1 ∧
      (∃ ws, execute tables (q.orderedBy [⟨.path ⟨"f", some "key"⟩, .desc⟩]) b = .ok ws ∧
        ∀ v, ws.countP (·.same v) = vs.countP (·.same v)) ∧
      ∃ (ixs : List (List Nat)) (us : List Value), ixs.Pairwise (· < ·) ∧ [1, 1] ∈ ixs ∧
        [1, 0] ∉ ixs ∧ ixs.map (yield? tables q b) = us.map some ∧ vs = us.eraseDups := by
  intro keyed tables q b
  have hvalid : Valid tables q := validate_eq_ok_iff.1 rfl
  have hbound : ∀ p ∈ q.parameters, (b.value? p.id).isSome := by decide
  have hordered : ¬ Disordered tables q b := not_disordered_of_short (by decide +kernel)
  obtain ⟨vs, hvs, hcount, horders, hsorted⟩ :=
    (execute_answers_each_match hvalid nofun hbound (by decide +kernel)).2 hordered
  obtain ⟨ixs, us, hlt, hmem, hyields, hdistinct⟩ := hsorted rfl
  exact ⟨vs, hvs, hcount _, horders _ (validate_eq_ok_iff.1 rfl) (by decide)
    (not_disordered_of_short (by decide +kernel)), ixs, us, hlt, (hmem _).2 (by decide +kernel),
    fun h => absurd ((hmem _).1 h) (by decide +kernel), hyields, hdistinct⟩

/-- Rows that all match, and that are not answered when they are to be sorted. -/
theorem execute_clashing :
    let tables : Tables := [("E", clashingRows)]
    let q : Query := {
      result := .entity, roots := [⟨"E", "e"⟩], orders := [⟨.path ⟨"e", some "x"⟩, .asc⟩] }
    Valid tables q ∧ execute tables q [] = .error (.panicked .orderViolation) ∧
      (execute tables (q.orderedBy []) []).map List.length = .ok 22 := by
  intro tables q
  exact ⟨validate_eq_ok_iff.1 rfl, execute_of_disordered ⟨_, rfl, by decide +kernel⟩,
    by decide +kernel⟩

end

end EntityQuery.Evaluation
