import Mathlib.Data.List.Perm.Subperm
import Mathlib.Data.List.Nodup
import EntityQuery.Criteria.Query
/-! The aliases of a query that is built call by call. One that the query finds itself is free, so
an alias is repeated only when a call names one that is taken. -/
namespace EntityQuery.Criteria

theorem append_toString_injective (base : String) :
    Function.Injective fun n : Nat => base ++ toString n := by
  intro n m h
  have hdigits : Nat.toDigits 10 n = Nat.toDigits 10 m := by
    have hlist := congrArg String.toList h
    rw [String.toList_append, String.toList_append] at hlist
    rw [← Nat.toList_repr, ← Nat.toList_repr]
    exact List.append_cancel_left hlist
  rw [← Nat.ofDigitChars_ten_toDigits (n := n), hdigits, Nat.ofDigitChars_ten_toDigits]

namespace Query

def aliases (q : Query) : List String := q.roots.map (·.aliasName)

theorem hasAlias_iff {q : Query} {a : String} : q.hasAlias a = true ↔ a ∈ q.aliases := by
  simp [hasAlias, aliases]

theorem hasAlias_eq_false_iff {q : Query} {a : String} : q.hasAlias a = false ↔ a ∉ q.aliases := by
  rw [← hasAlias_iff, Bool.not_eq_true]

/-- The search ends at a free alias, or behind as many taken ones as it may try. -/
theorem freeAlias_taken {q : Query} {base : String} {index tries : Nat}
    (h : q.hasAlias (q.freeAlias base index tries) = true) :
    ∀ k ≤ tries, q.hasAlias (base ++ toString (index + k)) = true := by
  induction tries generalizing index with
  | zero =>
    intro k hk
    obtain rfl := Nat.le_zero.1 hk
    exact h
  | succ tries ih =>
    rw [freeAlias] at h
    split at h
    · rename_i htaken
      intro k hk
      cases k with
      | zero => exact htaken
      | succ k =>
        rw [← Nat.add_assoc, Nat.add_right_comm]
        exact ih h k (Nat.le_of_succ_le_succ hk)
    · exact absurd h ‹_›

theorem hasAlias_freeAlias (q : Query) (base : String) (index : Nat) :
    q.hasAlias (q.freeAlias base index q.roots.length) = false := by
  by_contra hn
  have htaken := freeAlias_taken (Bool.not_eq_false _ ▸ hn)
  have hnodup : ((List.range (q.roots.length + 1)).map fun k => base ++ toString (index + k)).Nodup :=
    List.nodup_range.map ((append_toString_injective base).comp fun _ _ => Nat.add_left_cancel)
  have hsubset : ((List.range (q.roots.length + 1)).map fun k => base ++ toString (index + k)) ⊆
      q.aliases := by
    intro a ha
    obtain ⟨k, hk, rfl⟩ := List.mem_map.1 ha
    exact hasAlias_iff.1 (htaken k (Nat.le_of_lt_succ (List.mem_range.1 hk)))
  have hlength := (List.subperm_of_subset hnodup hsubset).length_le
  rw [List.length_map, List.length_range, aliases, List.length_map] at hlength
  exact Nat.not_succ_le_self _ hlength

theorem hasAlias_aliasFor (q : Query) (entity : String) :
    q.hasAlias (q.aliasFor entity) = false := by
  unfold aliasFor
  dsimp only
  split
  · exact q.hasAlias_freeAlias _ _
  · rename_i hfree
    rw [Bool.or_eq_true, not_or] at hfree
    rw [← Bool.not_eq_true]
    exact hfree.1

end Query

inductive Step where
  | source (entity : String)
  | sourceAs (entity aliasName : String)
  | select (s : Selection)
  | restrict (p : Predicate)
  | restrictAlso (p : Predicate)
  | groupedBy (groups : List Expression)
  | orderedBy (orders : List Order)
  | setDistinct (flag : Bool)

namespace Step

def apply (q : Query) : Step → Query
  | source entity => (q.addRoot entity).1
  | sourceAs entity aliasName => (q.addRootAs entity aliasName).1
  | select s => q.select s
  | restrict p => q.restrict p
  | restrictAlso p => q.restrictAlso p
  | groupedBy groups => q.groupedBy groups
  | orderedBy orders => q.orderedBy orders
  | setDistinct flag => q.setDistinct flag

/-- The aliases that a call brings in: the one it names, or the one that is found for it. -/
def added (q : Query) : Step → List String
  | source entity => [q.aliasFor entity]
  | sourceAs _ aliasName => [aliasName]
  | _ => []

def NamesFree (q : Query) : Step → Prop
  | sourceAs _ aliasName => aliasName ∉ q.aliases
  | _ => True

variable (q : Query) (s : Step)

theorem aliases_apply : (s.apply q).aliases = q.aliases ++ s.added q := by
  cases s with
  | source entity => simp [apply, added, Query.addRoot, Query.addRootAs, Query.aliases]
  | sourceAs entity aliasName => simp [apply, added, Query.addRootAs, Query.aliases]
  | _ => exact (List.append_nil _).symm

theorem nodup_apply_iff : (s.apply q).aliases.Nodup ↔ q.aliases.Nodup ∧ s.NamesFree q := by
  rw [aliases_apply]
  cases s with
  | source entity =>
    have hfree := Query.hasAlias_eq_false_iff.1 (q.hasAlias_aliasFor entity)
    simp [added, NamesFree, ← List.concat_eq_append, List.nodup_concat, hfree]
  | sourceAs entity aliasName =>
    simp [added, NamesFree, ← List.concat_eq_append, List.nodup_concat, and_comm]
  | _ => simp [added, NamesFree]

end Step

namespace Query

def applyAll (q : Query) (steps : List Step) : Query := steps.foldl Step.apply q

def built (result : ResultKind) (steps : List Step) : Query := applyAll { result } steps

theorem nodup_applyAll_iff (q : Query) (steps : List Step) :
    (q.applyAll steps).aliases.Nodup ↔ q.aliases.Nodup ∧
      ∀ before s after, steps = before ++ s :: after → s.NamesFree (q.applyAll before) := by
  induction steps generalizing q with
  | nil => simp [applyAll]
  | cons s steps ih =>
    rw [applyAll, List.foldl_cons, ← applyAll, ih, Step.nodup_apply_iff, and_assoc]
    refine and_congr_right fun _ => ⟨fun ⟨hs, h⟩ before t after he => ?_, fun h => ⟨?_, ?_⟩⟩
    · cases before with
      | nil =>
        obtain ⟨rfl, -⟩ := List.cons.inj he
        exact hs
      | cons s' before =>
        obtain ⟨rfl, hrest⟩ := List.cons.inj he
        exact h before t after hrest
    · exact h [] s steps rfl
    · intro before t after he
      exact h (s :: before) t after (congrArg (s :: ·) he)

/-- No two sources of a query that is built share an alias exactly when each call that names one
names one that is free. -/
theorem nodup_built_iff (result : ResultKind) (steps : List Step) :
    (built result steps).aliases.Nodup ↔ ∀ before entity aliasName after,
      steps = before ++ .sourceAs entity aliasName :: after →
        (built result before).hasAlias aliasName = false := by
  have hnil : aliases { result } = [] := rfl
  rw [built, nodup_applyAll_iff, hnil]
  simp only [List.nodup_nil, true_and, hasAlias_eq_false_iff]
  refine ⟨fun h before entity aliasName after he => h before _ after he, fun h before s after he => ?_⟩
  cases s with
  | sourceAs entity aliasName => exact h before entity aliasName after he
  | _ => trivial

end Query

end EntityQuery.Criteria
