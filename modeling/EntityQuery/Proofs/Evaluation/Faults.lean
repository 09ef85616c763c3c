import EntityQuery.Proofs.Evaluation.Count
/-! How a query can fail that is valid and whose parameters are bound: by a pattern that is too large,
or by an order that the sort finds to contradict itself. So a query fails for want of a value exactly
when a parameter has none. -/
namespace EntityQuery
open Criteria

namespace Criteria.Predicate

mutual

def patterns : Predicate → List Expression
  | .comparison _ _ _ | .isNull _ | .isNotNull _ => []
  | .like _ pattern => [pattern]
  | .and items | .or items => patternsOf items
  | .not item => patterns item

def patternsOf : List Predicate → List Expression
  | [] => []
  | p :: rest => patterns p ++ patternsOf rest

end

end Criteria.Predicate

namespace Evaluation

def TooLarge (e : SessionError) : Prop := e = .malformedQuery (.patternTooLarge patternBytesMax)

theorem likeValue_fails (text pattern : Value) : Fails TooLarge (likeValue text pattern) := by
  unfold likeValue
  split
  · split
    · exact .ok _
    · rintro e ⟨⟩
      rfl
  · exact .ok _

def fitting : Value → Bool
  | .string pattern => decide (patternBytes pattern.toList ≤ patternBytesMax)
  | _ => true

theorem likeValue_of_fitting {pattern : Value} (h : fitting pattern = true) (text : Value) :
    Fails (fun _ => False) (likeValue text pattern) := by
  unfold likeValue
  split
  · rw [if_pos (of_decide_eq_true h)]
    exact .ok _
  · exact .ok _

section
variable {b : Bindings} {c : Combination} {P : SessionError → Prop}

def PatternFails (P : SessionError → Prop) (b : Bindings) (c : Combination) (e : Expression) : Prop :=
  ∀ w, resolve b c e = .ok w → ∀ v, Fails P (likeValue v w)

mutual

/-- A condition whose operands have values fails only like its patterns. -/
theorem satisfies_fails_of {p : Predicate} (h : ∀ e ∈ p.expressions, ∃ v, resolve b c e = .ok v)
    (hp : ∀ e ∈ p.patterns, PatternFails P b c e) : Fails P (satisfies b c p) := by
  match p with
  | .comparison op l r =>
    obtain ⟨v, hv⟩ := h l (by simp [Predicate.expressions])
    obtain ⟨w, hw⟩ := h r (by simp [Predicate.expressions])
    rw [satisfies, hv, hw]
    exact .ok _
  | .like e pattern =>
    obtain ⟨v, hv⟩ := h e (by simp [Predicate.expressions])
    obtain ⟨w, hw⟩ := h pattern (by simp [Predicate.expressions])
    rw [satisfies, hv, hw]
    exact hp pattern (by simp [Predicate.patterns]) w hw v
  | .isNull e | .isNotNull e =>
    obtain ⟨v, hv⟩ := h e (by simp [Predicate.expressions])
    rw [satisfies, hv]
    exact .ok _
  | .and items =>
    rw [satisfies]
    exact satisfiesAll_fails_of items h hp
  | .or items =>
    rw [satisfies]
    exact satisfiesAny_fails_of items h hp
  | .not p =>
    rw [satisfies]
    exact (satisfies_fails_of (p := p) h hp).bind fun x _ => .ok _

theorem satisfiesAll_fails_of (ps : List Predicate)
    (h : ∀ e ∈ Predicate.expressionsOf ps, ∃ v, resolve b c e = .ok v)
    (hp : ∀ e ∈ Predicate.patternsOf ps, PatternFails P b c e) :
    Fails P (satisfiesAll b c ps) := by
  match ps with
  | [] => exact .ok _
  | p :: rest =>
    rw [Predicate.expressionsOf] at h
    rw [Predicate.patternsOf] at hp
    rw [satisfiesAll]
    have hfirst := satisfies_fails_of (fun e he => h e (List.mem_append_left _ he))
      fun e he => hp e (List.mem_append_left _ he)
    have hrest := satisfiesAll_fails_of rest (fun e he => h e (List.mem_append_right _ he))
      fun e he => hp e (List.mem_append_right _ he)
    refine hfirst.bind fun x _ => ?_
    cases x with
    | true => exact hrest
    | false => exact .ok _

theorem satisfiesAny_fails_of (ps : List Predicate)
    (h : ∀ e ∈ Predicate.expressionsOf ps, ∃ v, resolve b c e = .ok v)
    (hp : ∀ e ∈ Predicate.patternsOf ps, PatternFails P b c e) :
    Fails P (satisfiesAny b c ps) := by
  match ps with
  | [] => exact .ok _
  | p :: rest =>
    rw [Predicate.expressionsOf] at h
    rw [Predicate.patternsOf] at hp
    rw [satisfiesAny]
    have hfirst := satisfies_fails_of (fun e he => h e (List.mem_append_left _ he))
      fun e he => hp e (List.mem_append_left _ he)
    have hrest := satisfiesAny_fails_of rest (fun e he => h e (List.mem_append_right _ he))
      fun e he => hp e (List.mem_append_right _ he)
    refine hfirst.bind fun x _ => ?_
    cases x with
    | true => exact .ok _
    | false => exact hrest

end

theorem satisfies_fails {p : Predicate} (h : ∀ e ∈ p.expressions, ∃ v, resolve b c e = .ok v) :
    Fails TooLarge (satisfies b c p) :=
  satisfies_fails_of h fun _ _ w _ v => likeValue_fails v w

/-- No pattern of the condition is too large on the combination. -/
def FitsOn (b : Bindings) (c : Combination) (p : Predicate) : Prop :=
  ∀ e ∈ p.patterns, ∀ w ∈ (resolve b c e).toOption, fitting w = true

instance (b : Bindings) (c : Combination) (p : Predicate) : Decidable (FitsOn b c p) :=
  inferInstanceAs (Decidable (∀ e ∈ p.patterns, ∀ w ∈ (resolve b c e).toOption, fitting w = true))

theorem FitsOn.exists_satisfies {p : Predicate} (hp : FitsOn b c p)
    (h : ∀ e ∈ p.expressions, ∃ v, resolve b c e = .ok v) : ∃ x, satisfies b c p = .ok x := by
  have hfails := satisfies_fails_of (P := fun _ => False) h fun e he w hw v =>
    likeValue_of_fitting (hp e he w (by rw [hw]; rfl)) v
  cases hx : satisfies b c p with
  | ok x => exact ⟨x, rfl⟩
  | error e => exact (hfails e hx).elim

theorem satisfying_fails {p : Predicate} {cs : List Combination}
    (h : ∀ c ∈ cs, Fails TooLarge (satisfies b c p)) : Fails TooLarge (satisfying b p cs) := by
  induction cs with
  | nil => exact .ok _
  | cons c rest ih =>
    rw [satisfying]
    refine (h c (.head _)).bind fun keep _ => ?_
    exact (ih fun d hd => h d (.tail _ hd)).bind fun kept _ => .ok _

end

section
variable {tables : Tables} {q : Query} {b : Bindings} {cs ds : List Combination}

theorem exists_combinations {roots : List Root}
    (h : ∀ r ∈ roots, (Dictionary.get? r.entity tables).isSome) :
    ∃ cs, combinations tables roots = .ok cs := by
  induction roots with
  | nil => exact ⟨_, rfl⟩
  | cons r rest ih =>
    obtain ⟨vs, hvs⟩ := Option.isSome_iff_exists.1 (h r (.head _))
    obtain ⟨more, hmore⟩ := ih fun s hs => h s (.tail _ hs)
    exact ⟨_, by rw [combinations, hvs, hmore]; rfl⟩

theorem Ready.subset (h : Ready tables q b cs) (hds : ∀ c ∈ ds, c ∈ cs) : Ready tables q b ds :=
  ⟨h.valid, h.bound, fun c hc => h.sources c (hds c hc)⟩

theorem Ready.matching_fails (h : Ready tables q b cs) :
    Fails TooLarge (matching b q.restriction cs) := by
  unfold matching
  split
  · exact .ok _
  · rename_i p hp
    exact satisfying_fails fun c hc => satisfies_fails fun e he =>
      h.resolve (mem_expressions.2 (.inl ⟨p, hp, he⟩)) hc

def keysOf (b : Bindings) (orders : List Order) (c : Combination) : List Value :=
  orders.filterMap fun o => (resolve b c o.expression).toOption

def precedesBy (b : Bindings) (orders : List Order) (c d : Combination) : Bool :=
  keysPrecede (orders.map (·.direction)) (keysOf b orders c) (keysOf b orders d)

theorem Ready.mapM_orders (h : Ready tables q b cs) {c : Combination} (hc : c ∈ cs) :
    (q.orders.mapM fun o => Evaluation.resolve b c o.expression) = .ok (keysOf b q.orders c) := by
  refine mapM_eq_filterMap fun o ho => ?_
  obtain ⟨v, hv⟩ := h.resolve (mem_expressions_of_order ho) hc
  exact ⟨v, hv, by rw [hv]; rfl⟩

theorem Ready.sorted_eq (h : Ready tables q b cs) : sorted b q.orders cs =
    (StableSort.sort (precedesBy b q.orders) cs).elim (.error (.panicked .orderViolation)) .ok := by
  unfold sorted
  split
  · rename_i hempty
    rw [List.isEmpty_iff] at hempty
    rw [StableSort.sort_of_none (by simp [precedesBy, hempty, keysPrecede])]
    rfl
  · have hkeyed : keyed b q.orders cs = .ok (cs.map fun c => (keysOf b q.orders c, c)) :=
      mapM_eq_map fun c hc => by
        rw [h.mapM_orders hc]
        rfl
    have hsort : StableSort.sort (keyedPrecede q.orders) (cs.map fun c => (keysOf b q.orders c, c)) =
        (StableSort.sort (precedesBy b q.orders) cs).map _ := StableSort.sort_map _ _ cs
    rw [hkeyed, ok_bind, hsort]
    cases StableSort.sort (precedesBy b q.orders) cs with
    | none => rfl
    | some ds =>
      show Except.ok ((ds.map fun c => (keysOf b q.orders c, c)).map (·.2)) = .ok ds
      rw [List.map_map]
      exact congrArg Except.ok (List.map_id ds)

theorem Ready.sorted_eq_ok_iff (h : Ready tables q b cs) :
    sorted b q.orders cs = .ok ds ↔ StableSort.sort (precedesBy b q.orders) cs = some ds := by
  rw [h.sorted_eq]
  cases StableSort.sort (precedesBy b q.orders) cs <;> simp

theorem Ready.exists_answer {a : Option String} (h : Ready tables q b cs)
    (ha : ∀ s ∈ a, q.hasAlias s) {c : Combination} (hc : c ∈ cs) : ∃ v, answer c a = .ok v := by
  cases a with
  | some s => exact h.row (ha s rfl) hc
  | none =>
    obtain ⟨r, rest, hroots⟩ := List.exists_cons_of_ne_nil h.valid.roots
    obtain ⟨⟨-, v⟩, more, rfl, -, -⟩ := List.map_eq_cons_iff.1 ((h.sources c hc).trans hroots)
    exact ⟨v, rfl⟩

theorem Ready.exists_rows {a : Option String} (h : Ready tables q b cs)
    (ha : ∀ s ∈ a, q.hasAlias s) (distinct : Bool) : ∃ vs, rows cs a distinct = .ok vs := by
  obtain ⟨vs, hvs⟩ := exists_mapM_eq_ok fun c hc => h.exists_answer ha hc
  exact ⟨_, by rw [rows, hvs]; rfl⟩

theorem Ready.exists_results (h : Ready tables q b cs) : ∃ vs, results q b cs = .ok vs := by
  have halias : ∀ s, (q.selection = some (.root s) ∨ ∃ flag, q.selection = some (.count s flag)) →
      q.hasAlias s := fun s hs => h.valid.aliases s (mem_referredAliases.2 (.inr hs))
  unfold results
  split
  · rename_i a distinct hsel
    obtain ⟨groups, hgroups, hperm⟩ := h.grouped
    rw [hgroups]
    refine exists_mapM_eq_ok fun g hg => ?_
    obtain ⟨us, hus⟩ := exists_mapM_eq_ok (f := (Evaluation.row · a)) fun c (hc : c ∈ g) =>
      h.row (halias a (.inr ⟨distinct, hsel⟩))
        (hperm.mem_iff.1 (List.mem_flatten.2 ⟨g, hg, hc⟩))
    exact ⟨_, countIn_eq_ok hus distinct⟩
  · rename_i a hsel
    exact h.exists_rows (fun s hs => by cases hs; exact halias a (.inl hsel)) _
  · exact h.exists_rows (fun s hs => by cases hs) _

/-- A valid query whose parameters are bound fails only by a pattern that is too large, or by an
order that contradicts itself. -/
theorem execute_fails (hvalid : Valid tables q)
    (hbound : ∀ p ∈ q.parameters, (b.value? p.id).isSome) :
    Fails (fun e => TooLarge e ∨ e = .panicked .orderViolation) (execute tables q b) := by
  obtain ⟨cs, hcs⟩ := exists_combinations hvalid.entities
  have hready : Ready tables q b cs := ⟨hvalid, hbound, sources_of_mem_combinations hcs⟩
  rw [execute_eq, tuples_of_bound hvalid hbound, hcs, ok_bind, bind_assoc]
  refine Fails.bind (fun e he => .inl (hready.matching_fails e he)) fun kept hkept => ?_
  have hmatched := hready.subset (matching_sublist hkept).subset
  cases hsorted : sorted b q.orders kept with
  | error e =>
    rw [hmatched.sorted_eq] at hsorted
    cases hsort : StableSort.sort (precedesBy b q.orders) kept with
    | some ds => simp [hsort] at hsorted
    | none =>
      rw [hsort] at hsorted
      cases hsorted
      rintro e ⟨⟩
      exact .inr rfl
  | ok ds =>
    rw [ok_bind]
    obtain ⟨vs, hvs⟩ :=
      (hmatched.subset fun c hc => (sorted_perm hsorted).mem_iff.1 hc).exists_results
    rw [hvs]
    exact .ok vs

theorem execute_eq_unbound_iff (hvalid : Valid tables q) {label : String} :
    execute tables q b = .error (.unboundParameter label) ↔
      (q.parameters.find? fun p => (b.value? p.id).isNone).map (·.label) = some label := by
  cases hfind : q.parameters.find? fun p => (b.value? p.id).isNone with
  | some p =>
    rw [execute_eq, tuples_of_unbound hvalid hfind, error_bind]
    simp
  | none =>
    constructor
    · intro h
      obtain h | h := execute_fails hvalid (find?_isNone_eq_none_iff.1 hfind) _ h <;> cases h
    · intro h
      cases h

/-- No pattern of the query is too large on a combination of rows. -/
def PatternsFit (tables : Tables) (q : Query) (b : Bindings) : Prop :=
  ∀ cs ∈ (combinations tables q.roots).toOption, ∀ c ∈ cs, ∀ p ∈ q.restriction, FitsOn b c p

instance (tables : Tables) (q : Query) (b : Bindings) : Decidable (PatternsFit tables q b) :=
  inferInstanceAs (Decidable (∀ cs ∈ (combinations tables q.roots).toOption, ∀ c ∈ cs,
    ∀ p ∈ q.restriction, FitsOn b c p))

def Meets (q : Query) (b : Bindings) (c : Combination) : Prop :=
  ∀ p ∈ q.restriction, satisfies b c p = .ok true

instance (q : Query) (b : Bindings) : DecidablePred (Meets q b) :=
  fun c => inferInstanceAs (Decidable (∀ p ∈ q.restriction, satisfies b c p = .ok true))

theorem matching_eq_ok {all : List Combination} (h : matching b q.restriction all = .ok cs) :
    cs = all.filter fun c => decide (Meets q b c) := by
  unfold matching at h
  split at h
  · rename_i hnone
    cases h
    simp [Meets, hnone]
  · rename_i p hp
    have hmeets : ∀ c, Meets q b c ↔ satisfies b c p = .ok true := by simp [Meets, hp]
    simpa only [hmeets] using satisfying_eq_ok h

theorem Ready.matching_eq_filter (h : Ready tables q b cs)
    (hfit : ∀ c ∈ cs, ∀ p ∈ q.restriction, FitsOn b c p) :
    matching b q.restriction cs = .ok (cs.filter fun c => decide (Meets q b c)) := by
  unfold matching
  split
  · rename_i hnone
    have hall : ∀ c, Meets q b c := by simp [Meets, hnone]
    simp [hall]
  · rename_i p hp
    refine satisfying_eq_filter fun c hc => ?_
    obtain ⟨x, hx⟩ := (hfit c hc p hp).exists_satisfies fun e he =>
      h.resolve (mem_expressions.2 (.inl ⟨p, hp, he⟩)) hc
    have hmeets : Meets q b c ↔ x = true := by simp [Meets, hp, hx]
    simp [hx, hmeets]

/-- The sort of the combinations notices that their order contradicts itself. -/
def Disordered (tables : Tables) (q : Query) (b : Bindings) : Prop :=
  ∃ kept, matched tables q b = .ok kept ∧ StableSort.sort (precedesBy b q.orders) kept = none

theorem execute_of_disordered (h : Disordered tables q b) :
    execute tables q b = .error (.panicked .orderViolation) := by
  obtain ⟨kept, hkept, hnone⟩ := h
  rw [execute_eq, tuples, hkept, ok_bind, (matched_eq_ok hkept).sorted_eq, hnone]
  rfl

theorem exists_sorted_of_ordered (hordered : ¬ Disordered tables q b)
    (hkept : matched tables q b = .ok cs) : ∃ ds, sorted b q.orders cs = .ok ds := by
  obtain ⟨ds, hds⟩ := Option.ne_none_iff_exists'.1 fun hnone => hordered ⟨cs, hkept, hnone⟩
  exact ⟨ds, (matched_eq_ok hkept).sorted_eq_ok_iff.2 hds⟩

theorem exists_tuples (hvalid : Valid tables q) (hbound : ∀ p ∈ q.parameters, (b.value? p.id).isSome)
    (hfit : PatternsFit tables q b) (hordered : ¬ Disordered tables q b) :
    ∃ all cs, combinations tables q.roots = .ok all ∧ tuples tables q b = .ok cs ∧
      sorted b q.orders (all.filter fun c => decide (Meets q b c)) = .ok cs := by
  obtain ⟨all, hall⟩ := exists_combinations hvalid.entities
  have hready : Ready tables q b all := ⟨hvalid, hbound, sources_of_mem_combinations hall⟩
  have hmatching := hready.matching_eq_filter (hfit all (by rw [hall]; rfl))
  have hkept : matched tables q b = .ok (all.filter fun c => decide (Meets q b c)) := by
    rw [matched_of_bound hvalid hbound, hall, ok_bind, hmatching]
  obtain ⟨cs, hcs⟩ := exists_sorted_of_ordered hordered hkept
  exact ⟨all, cs, hall, by rw [tuples, hkept, ok_bind, hcs], hcs⟩

/-- A valid query whose patterns fit fails for want of a value, which the failure names, and when its
order is found to contradict itself. -/
theorem execute_eq_error_iff (hvalid : Valid tables q) (hfit : PatternsFit tables q b)
    (e : SessionError) : execute tables q b = .error e ↔
      match q.parameters.find? fun p => (b.value? p.id).isNone with
      | some p => e = .unboundParameter p.label
      | none => Disordered tables q b ∧ e = .panicked .orderViolation := by
  cases hfind : q.parameters.find? fun p => (b.value? p.id).isNone with
  | some p =>
    rw [execute_eq, tuples_of_unbound hvalid hfind, error_bind]
    simp [eq_comm]
  | none =>
    have hbound := find?_isNone_eq_none_iff.1 hfind
    by_cases hdisordered : Disordered tables q b
    · rw [execute_of_disordered hdisordered]
      simp [hdisordered, eq_comm]
    · obtain ⟨all, cs, -, hcs, -⟩ := exists_tuples hvalid hbound hfit hdisordered
      obtain ⟨vs, hvs⟩ := (tuples_eq_ok hcs).exists_results
      rw [execute_eq, hcs, ok_bind, hvs]
      simp [hdisordered]

end

end Evaluation

end EntityQuery
