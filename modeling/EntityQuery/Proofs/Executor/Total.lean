import EntityQuery.Executor.Basic
import EntityQuery.Proofs.Executor.Outcome
import EntityQuery.Proofs.Outcome
/-! The total that a count query is summed to. The numbers in its rows are added one after another,
and the program stops where a sum is no signed 64-bit integer. -/
namespace EntityQuery

def Value.ofCount : Option Int → Value
  | none => .null
  | some n => .integer n

theorem Decode.rows_ofCount {counts : List (Option Int)}
    (h : ∀ n, some n ∈ counts → Number.IsLong n) :
    Decode.rows Decode.count (counts.map Value.ofCount) = .ok counts := by
  refine mapM_eq_ok_iff.2 (List.forall₂_map_left_iff.2 (List.forall₂_same.2 fun c hc => ?_))
  cases c with
  | none => rfl
  | some n =>
    show ((Decode.long (.number (.integer n))).map some).mapError _ = _
    rw [Decode.long, if_pos (h n hc)]
    rfl

namespace Executor
variable {counts : List (Option Int)}

def exactSum (counts : List (Option Int)) : Int := counts.reduceOption.sum

@[simp] theorem exactSum_nil : exactSum [] = 0 := rfl

@[simp] theorem exactSum_cons (c : Option Int) (counts : List (Option Int)) :
    exactSum (c :: counts) = c.getD 0 + exactSum counts := by
  cases c <;> simp [exactSum]

theorem exactSum_append (counts counts' : List (Option Int)) :
    exactSum (counts ++ counts') = exactSum counts + exactSum counts' := by
  rw [exactSum, List.reduceOption_append, List.sum_append]
  rfl

theorem exactSum_nonneg (h : ∀ n, some n ∈ counts → 0 ≤ n) : 0 ≤ exactSum counts :=
  List.sum_nonneg fun n hn => h n (List.reduceOption_mem_iff.1 hn)

theorem foldlM_addLong_eq_ok_iff (counts : List (Option Int)) {m t : Int} (h : Number.IsLong m) :
    counts.foldlM (fun sum n => addLong sum (n.getD 0)) m = .ok t ↔
      t = m + exactSum counts ∧ ∀ k, Number.IsLong (m + exactSum (counts.take k)) := by
  induction counts generalizing m with
  | nil => simp [h, eq_comm]
  | cons c counts ih =>
    have hk : (∀ k, Number.IsLong (m + exactSum ((c :: counts).take k))) ↔
        ∀ k, Number.IsLong (m + c.getD 0 + exactSum (counts.take k)) := by
      rw [← Nat.and_forall_add_one]
      simp [Int.add_assoc, h]
    rw [List.foldlM_cons, hk, exactSum_cons, ← Int.add_assoc, addLong]
    split
    · rename_i hlong
      exact ih hlong
    · rename_i hlong
      refine ⟨nofun, fun ⟨_, hall⟩ => (hlong ?_).elim⟩
      simpa using hall 0

/-- The total is the sum, provided that no sum of the first numbers leaves the range. -/
theorem total_eq_ok_iff {t : Int} : total counts = .ok t ↔
    t = exactSum counts ∧ ∀ k, Number.IsLong (exactSum (counts.take k)) := by
  have hfold := foldlM_addLong_eq_ok_iff counts (m := 0) (t := t) (by decide)
  simpa only [total, Int.zero_add] using hfold

/-- Sums of numbers that are not negative only grow. -/
theorem total_of_nonneg (h : ∀ n, some n ∈ counts → 0 ≤ n) (hsum : Number.IsLong (exactSum counts)) :
    total counts = .ok (exactSum counts) := by
  refine total_eq_ok_iff.2 ⟨rfl, fun k => ?_⟩
  have hparts := exactSum_append (counts.take k) (counts.drop k)
  rw [List.take_append_drop] at hparts
  have hfirst : 0 ≤ exactSum (counts.take k) :=
    exactSum_nonneg fun n hn => h n (List.mem_of_mem_take hn)
  have hrest : 0 ≤ exactSum (counts.drop k) :=
    exactSum_nonneg fun n hn => h n (List.mem_of_mem_drop hn)
  unfold Number.IsLong at *
  omega

section
variable (x : Executor)

theorem gives_total (s : Session) (counts : List (Option Int)) : Run.Gives (do
    let total ← liftExcept ((total counts).mapError QueryError.panicked)
    Run.count (·.addCountRows counts.length)
    Run.note .countExecuted [("entity", x.entity.name), ("rows", toString counts.length),
      ("total", toString total)]
    return total) s ((total counts).mapError .panicked) := by
  cases total counts with
  | ok t => exact fun _ ho => ⟨rfl, ho⟩
  | error e => exact .throw _

end

end Executor

end EntityQuery
