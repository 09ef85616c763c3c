import EntityQuery.Proofs.Evaluation.Arranged
/-! Counting in groups. The combinations that satisfy the restriction are split by the values of the
keys that a query groups by, and each group has one count; the orders decide only which group comes
first. -/
namespace EntityQuery.Evaluation
open Criteria

section
variable {key : Combination → List Value} {value : Combination → Value} {distinct : Bool}
  {cs ds : List Combination}

/-- The number of combinations, or of the different values that they have. -/
def tally (value : Combination → Value) (distinct : Bool) (cs : List Combination) : Nat :=
  if distinct then (cs.map value).eraseDups.length else cs.length

/-- The numbers of combinations with one key each, in the order in which the keys first appear. -/
def tallies (key : Combination → List Value) (value : Combination → Value) (distinct : Bool)
    (cs : List Combination) : List Nat :=
  (cs.map key).eraseDups.map fun k => tally value distinct (cs.filter fun c => key c == k)

theorem tally_perm (h : cs.Perm ds) : tally value distinct cs = tally value distinct ds := by
  have hvalues := firsts_map_perm Value.same_self Value.same_comm (fun _ _ _ => Value.same_trans)
    (f := fun _ => ()) (fun _ _ _ => rfl) (h.map value)
  rw [firsts_same_eq_eraseDups, firsts_same_eq_eraseDups] at hvalues
  unfold tally
  split
  · simpa using hvalues.length_eq
  · exact h.length_eq

theorem tally_pos (h : cs ≠ []) : 1 ≤ tally value distinct cs := by
  obtain ⟨c, rest, rfl⟩ := List.exists_cons_of_ne_nil h
  unfold tally
  split
  · simp [List.eraseDups_cons]
  · simp

theorem beq_congr_of_sameItems {k l : List Value} (h : Value.sameItems k l = true)
    (us : List Value) : (us == k) = (us == l) := by
  rw [← Value.sameItems_eq_beq, ← Value.sameItems_eq_beq, Bool.eq_iff_iff]
  have h' : Value.sameItems l k = true := (Value.sameItems_comm l k).trans h
  exact ⟨fun hk => Value.sameItems_trans hk h, fun hl => Value.sameItems_trans hl h'⟩

theorem tallies_perm (h : cs.Perm ds) :
    (tallies key value distinct cs).Perm (tallies key value distinct ds) := by
  have hkeys := firsts_map_perm Value.sameItems_self Value.sameItems_comm
    (fun _ _ _ => Value.sameItems_trans)
    (f := fun k => tally value distinct (cs.filter fun c => key c == k))
    (fun k l hkl => by simp only [beq_congr_of_sameItems hkl]) (h.map key)
  have hgroups (k : List Value) : tally value distinct (cs.filter fun c => key c == k) =
      tally value distinct (ds.filter fun c => key c == k) := tally_perm (h.filter _)
  simp only [firsts_sameItems_eq_eraseDups, hgroups] at hkeys
  simpa only [tallies, hgroups] using hkeys

theorem sameItems_eq_beq_swap (us vs : List Value) : Value.sameItems us vs = (vs == us) := by
  rw [Value.sameItems_comm, Value.sameItems_eq_beq]

/-- The groups hold each combination once. -/
theorem flatMap_keys_perm (key : Combination → List Value) (cs : List Combination) :
    ((cs.map key).eraseDups.flatMap fun k => cs.filter fun c => key c == k).Perm cs := by
  have hperm := flatMap_filter_perm Value.sameItems_comm (fun _ _ _ => Value.sameItems_trans) key cs
    (firsts_pairwise [] (cs.map key)).1 fun c hc => by
      simpa using exists_same_firsts Value.sameItems_self [] (cs.map key) (key c)
        (List.mem_map_of_mem hc)
  simpa only [firsts_sameItems_eq_eraseDups, sameItems_eq_beq_swap] using hperm

theorem sum_tallies (key : Combination → List Value) (value : Combination → Value)
    (cs : List Combination) : (tallies key value false cs).sum = cs.length := by
  rw [← (flatMap_keys_perm key cs).length_eq, List.length_flatMap]
  rfl

theorem one_le_of_mem_tallies {n : Nat} (h : n ∈ tallies key value distinct cs) : 1 ≤ n := by
  obtain ⟨k, hk, rfl⟩ := List.mem_map.1 h
  rw [← firsts_sameItems_eq_eraseDups] at hk
  obtain ⟨c, hc, rfl⟩ := List.mem_map.1 ((firsts_sublist [] _).subset hk)
  refine tally_pos (List.ne_nil_of_mem (List.mem_filter.2 ⟨hc, ?_⟩))
  rw [← Value.sameItems_eq_beq, Value.sameItems_self]

end

def answerOf (a : Option String) (c : Combination) : Value := (answer c a).toOption.getD .null

def countsOf (q : Query) (key : Combination → List Value) (value : Combination → Value)
    (distinct : Bool) (cs : List Combination) : List Nat :=
  if q.groupBy = [] then [tally value distinct cs] else tallies key value distinct cs

section
variable {tables : Tables} {q : Query} {b : Bindings} {all kept cs gs : List Combination}
  {a : String} {distinct : Bool}

theorem countsOf_perm {key : Combination → List Value} {value : Combination → Value}
    {ds : List Combination} (h : cs.Perm ds) :
    (countsOf q key value distinct cs).Perm (countsOf q key value distinct ds) := by
  unfold countsOf
  split
  · rw [tally_perm h]
  · exact tallies_perm h

theorem Valid.hasAlias_of_count (h : Valid tables q)
    (hsel : q.selection = some (.count a distinct)) : ∀ s ∈ some a, q.hasAlias s := by
  rintro s ⟨⟩
  exact h.aliases a (mem_referredAliases.2 (.inr (.inr ⟨distinct, hsel⟩)))

theorem Ready.answer_eq {s : Option String} (h : Ready tables q b cs) (hs : ∀ a ∈ s, q.hasAlias a)
    {c : Combination} (hc : c ∈ cs) : answer c s = .ok (answerOf s c) := by
  obtain ⟨v, hv⟩ := h.exists_answer hs hc
  rw [answerOf, hv]
  rfl

/-- The groups come in the order in which their keys first appear. -/
theorem Ready.grouped_eq_filter (h : Ready tables q b cs) (hgroups : q.groupBy ≠ []) :
    Evaluation.grouped b q.groupBy cs = .ok ((cs.map (keyOf b q.groupBy)).eraseDups.map fun k =>
      cs.filter fun c => keyOf b q.groupBy c == k) := by
  rw [h.grouped_eq hgroups, groupBy_eq_map Value.sameItems_self Value.sameItems_comm
    fun _ _ _ => Value.sameItems_trans]
  simp [firsts_sameItems_eq_eraseDups, List.filter_map, Function.comp_def, sameItems_eq_beq_swap]

theorem Ready.countIn_eq (h : Ready tables q b cs) (ha : ∀ s ∈ some a, q.hasAlias s)
    (hgs : ∀ c ∈ gs, c ∈ cs) :
    countIn a distinct gs = .ok (.integer (tally (answerOf (some a)) distinct gs)) := by
  have hrows : gs.mapM (answer · (some a)) = .ok (gs.map (answerOf (some a))) :=
    mapM_eq_map fun c hc => h.answer_eq ha (hgs c hc)
  rw [countIn_eq_ok hrows, tally]
  cases distinct <;> simp [firsts_same_eq_eraseDups]

theorem Ready.results_count (h : Ready tables q b cs)
    (hsel : q.selection = some (.count a distinct)) :
    results q b cs = .ok ((countsOf q (keyOf b q.groupBy) (answerOf (some a)) distinct cs).map
      fun n : Nat => .integer n) := by
  have ha := h.valid.hasAlias_of_count hsel
  have hresults : results q b cs =
      Evaluation.grouped b q.groupBy cs >>= fun gs => gs.mapM (countIn a distinct) := by
    unfold results
    rw [hsel]
  rw [hresults, countsOf]
  split
  · rename_i hgroups
    rw [Evaluation.grouped, if_pos (by simpa using hgroups), ok_bind, List.mapM_cons,
      h.countIn_eq ha fun c hc => hc]
    rfl
  · rename_i hgroups
    rw [h.grouped_eq_filter hgroups, ok_bind, tallies, List.map_map, List.mapM_map]
    exact mapM_eq_map fun k _ => h.countIn_eq ha fun c hc => (List.mem_filter.1 hc).1

section
variable (hvalid : Valid tables q) (hbound : ∀ p ∈ q.parameters, (b.value? p.id).isSome)
  (hall : combinations tables q.roots = .ok all)
include hvalid hbound hall

theorem matched_eq_matching : matched tables q b = matching b q.restriction all := by
  rw [matched_of_bound hvalid hbound, hall, ok_bind]

theorem execute_of_sorted (hkept : matching b q.restriction all = .ok kept)
    (hcs : sorted b q.orders kept = .ok cs) :
    cs.Perm kept ∧ Ready tables q b cs ∧ execute tables q b = results q b cs := by
  have htuples : tuples tables q b = .ok cs := by
    rw [tuples, matched_eq_matching hvalid hbound hall, hkept, ok_bind, hcs]
  exact ⟨sorted_perm hcs, tuples_eq_ok htuples, by rw [execute_eq, htuples, ok_bind]⟩

theorem execute_of_matching_error {e : SessionError}
    (he : matching b q.restriction all = .error e) : execute tables q b = .error e := by
  rw [execute_eq, tuples, matched_eq_matching hvalid hbound hall, he]
  rfl

end

/-- A valid query that counts splits the combinations that satisfy its restriction by the values of
its keys. It answers one count for each key that there is, in the order in which the keys first
appear in the sorted sequence, and a single count when it has no keys. Other orders only rearrange
the counts. There is no answer if a pattern of the restriction is too large, or when the sort notices
that the orders contradict themselves. That takes more than twenty combinations, and orders that are
not consistent on them; where they are, the sorted sequence is the one that the orders arrange. -/
theorem execute_counts_by_key (hvalid : Valid tables q)
    (hsel : q.selection = some (.count a distinct))
    (hbound : ∀ p ∈ q.parameters, (b.value? p.id).isSome) :
    ∃ all, combinations tables q.roots = .ok all ∧
      (∀ e, matching b q.restriction all = .error e → TooLarge e ∧ execute tables q b = .error e) ∧
      ∀ kept, matching b q.restriction all = .ok kept →
        kept = all.filter (fun c => decide (Meets q b c)) ∧
        (Disordered tables q b → execute tables q b = .error (.panicked .orderViolation) ∧
          20 < kept.length ∧ ¬ Sortable b q.orders kept) ∧
        (¬ Disordered tables q b →
          ∃ (cs : List Combination) (key : Combination → List Value) (value : Combination → Value)
              (counts : List Nat),
            sorted b q.orders kept = .ok cs ∧ cs.Perm kept ∧
            (Sortable b q.orders kept → ∃ ds, cs = ds.map (·.1) ∧
              ∀ es, Arranged q b all es ↔ es = ds) ∧
            (∀ c ∈ kept, q.groupBy.mapM (resolve b c) = .ok (key c) ∧ row c a = .ok (value c)) ∧
            execute tables q b = .ok (counts.map fun n : Nat => .integer n) ∧
            (q.groupBy ≠ [] →
              counts = ((cs.map key).eraseDups.map fun k =>
                tally value distinct (kept.filter fun c => key c == k)) ∧
              (∀ n ∈ counts, 1 ≤ n) ∧ (distinct = false → counts.sum = kept.length)) ∧
            (q.groupBy = [] → counts = [tally value distinct kept]) ∧
            (kept = [] → counts = if q.groupBy = [] then [0] else []) ∧
            ∀ orders, Valid tables (q.orderedBy orders) →
              (∀ p ∈ (q.orderedBy orders).parameters, (b.value? p.id).isSome) →
              ¬ Disordered tables (q.orderedBy orders) b →
                ∃ counts' : List Nat, execute tables (q.orderedBy orders) b =
                  .ok (counts'.map fun n : Nat => .integer n) ∧ counts'.Perm counts) := by
  obtain ⟨all, hall⟩ := exists_combinations hvalid.entities
  have hready : Ready tables q b all := ⟨hvalid, hbound, sources_of_mem_combinations hall⟩
  refine ⟨all, hall, fun e he => ⟨hready.matching_fails e he,
    execute_of_matching_error hvalid hbound hall he⟩, fun kept hkept => ?_⟩
  have hmatched := (matched_eq_matching hvalid hbound hall).trans hkept
  refine ⟨matching_eq_ok hkept, fun hdisordered => ⟨execute_of_disordered hdisordered, ?_⟩,
    fun hordered => ?_⟩
  · obtain ⟨kept', hkept', hlimits⟩ := hdisordered.length_gt
    obtain rfl : kept = kept' := Except.ok.inj (hmatched.symm.trans hkept')
    exact hlimits
  obtain ⟨cs, hcs⟩ := exists_sorted_of_ordered hordered hmatched
  obtain ⟨hperm, hsorted, hexecute⟩ := execute_of_sorted hvalid hbound hall hkept hcs
  have hkeptReady := matched_eq_ok hmatched
  let key := keyOf b q.groupBy
  let value := answerOf (some a)
  have ha := hvalid.hasAlias_of_count hsel
  refine ⟨cs, key, value, countsOf q key value distinct cs, hcs, hperm, fun hsortable => ?_,
    fun c hc => ⟨hkeptReady.mapM_groupBy hc, hkeptReady.answer_eq ha hc⟩,
    hexecute.trans (hsorted.results_count hsel), fun hgroups => ?_, fun hgroups => ?_,
    fun hnone => ?_, fun orders hvalid' hbound' hordered' => ?_⟩
  · obtain ⟨ds, hds, hsequence⟩ := hkeptReady.exists_arranged hsortable (matching_eq_ok hkept)
    exact ⟨ds, Except.ok.inj (hcs.symm.trans hsequence), hds.eq_iff⟩
  · have htallies : countsOf q key value distinct cs = tallies key value distinct cs :=
      if_neg hgroups
    rw [htallies]
    refine ⟨List.map_congr_left fun k _ => tally_perm (hperm.filter _),
      fun n hn => one_le_of_mem_tallies hn, fun hdistinct => ?_⟩
    rw [hdistinct, sum_tallies, hperm.length_eq]
  · rw [countsOf, if_pos hgroups, tally_perm hperm]
  · obtain rfl : cs = [] := List.perm_nil.1 (hnone ▸ hperm)
    unfold countsOf
    split
    · cases distinct <;> rfl
    · rfl
  · obtain ⟨ds, hds⟩ := exists_sorted_of_ordered hordered'
      ((matched_eq_matching hvalid' hbound' hall).trans hkept)
    obtain ⟨hperm', hsorted', hexecute'⟩ := execute_of_sorted hvalid' hbound' hall hkept hds
    exact ⟨_, hexecute'.trans (hsorted'.results_count hsel),
      countsOf_perm (hperm'.trans hperm.symm)⟩

/-- Of the four combinations that match two have the key zero, which is there twice, and differ; the
other two have the same row. -/
theorem execute_counts_by_key_zeros :
    let keyed (key : Value) (name : String) : Value := .object [("key", key), ("name", .string name)]
    let zero (negative : Bool) : Value := .number (.double (.zero negative))
    let tables : Tables := [
      ("E", [keyed (zero false) "a", keyed (.integer 7) "b", keyed .null "c", keyed (zero true) "d",
        keyed (.integer 7) "b"]),
      ("F", [.object []])]
    let q : Query := {
      result := .long
      roots := [⟨"E", "e"⟩, ⟨"F", "f"⟩]
      selection := some (.count "e" true)
      restriction := some (.isNotNull (.path ⟨"e", some "key"⟩))
      groupBy := [.path ⟨"e", some "key"⟩, .parameter ⟨.named "p", .any, none⟩]
      orders := [⟨.path ⟨"e", some "name"⟩, .desc⟩] }
    let b : Bindings := [(.named "p", .bool true)]
    ∃ (kept cs : List Combination) (key : Combination → List Value) (value : Combination → Value)
        (counts : List Nat),
      kept.length = 4 ∧ sorted b q.orders kept = .ok cs ∧
      (∀ c ∈ kept, q.groupBy.mapM (resolve b c) = .ok (key c) ∧ row c "e" = .ok (value c)) ∧
      counts = ((cs.map key).eraseDups.map fun k =>
        tally value true (kept.filter fun c => key c == k)) ∧
      execute tables q b = .ok (counts.map fun n : Nat => .integer n) ∧
      (execute tables q b).map (Value.sameItems [.integer 2, .integer 1]) = .ok true ∧
      ∃ counts' : List Nat, execute tables (q.orderedBy []) b =
        .ok (counts'.map fun n : Nat => .integer n) ∧ counts'.Perm counts := by
  intro keyed zero tables q b
  have hvalid : Valid tables q := validate_eq_ok_iff.1 rfl
  obtain ⟨all, hall, -, hcounts⟩ := execute_counts_by_key (b := b) hvalid rfl (by decide)
  cases hall
  obtain ⟨-, -, hanswer⟩ := hcounts _ rfl
  obtain ⟨cs, key, value, counts, hcs, -, -, hvalues, hexecute, hgroups, -, -, horders⟩ :=
    hanswer (not_disordered_of_short (by decide +kernel))
  exact ⟨_, cs, key, value, counts, rfl, hcs, hvalues, (hgroups (by decide)).1, hexecute,
    by decide +kernel, horders [] (validate_eq_ok_iff.1 rfl) (by decide)
      (not_disordered_of_short (by decide +kernel))⟩

/-- Rows that have three keys, and that are not counted when they are to be sorted. -/
theorem execute_clashing_counts :
    let tables : Tables := [("E", clashingRows)]
    let q : Query := {
      result := .long
      roots := [⟨"E", "e"⟩]
      selection := some (.count "e" false)
      groupBy := [.path ⟨"e", some "x"⟩]
      orders := [⟨.path ⟨"e", some "x"⟩, .asc⟩] }
    Valid tables q ∧ execute tables q [] = .error (.panicked .orderViolation) ∧
      (execute tables (q.orderedBy []) []).map
        (Value.sameItems [.integer 1, .integer 12, .integer 9]) = .ok true := by
  intro tables q
  exact ⟨validate_eq_ok_iff.1 rfl, execute_of_disordered ⟨_, rfl, by decide +kernel⟩,
    by decide +kernel⟩

end

end EntityQuery.Evaluation
