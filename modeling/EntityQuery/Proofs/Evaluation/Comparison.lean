import EntityQuery.Proofs.Evaluation.Sorted
import EntityQuery.Proofs.Number.Range
/-! Where numbers that differ compare as one. Two signed integers compare exactly, all other pairs by
their nearest doubles, and numbers are the same only in one kind. So the comparisons of two numbers
fit together except for numbers that are confused, and the order of values is transitive except
around a number that blurs two integers. -/
namespace EntityQuery

namespace Number
variable {a b c : Number}

/-- The numbers differ and compare as one. -/
structure Confused (a b : Number) : Prop where
  differ : a.same b = false
  inexact : ¬ (a.IsLongInteger ∧ b.IsLongInteger)
  rounded : a.rounded = b.rounded

instance (a b : Number) : Decidable (Confused a b) :=
  decidable_of_iff (a.same b = false ∧ ¬ (a.IsLongInteger ∧ b.IsLongInteger) ∧
    a.rounded = b.rounded) ⟨fun h => ⟨h.1, h.2.1, h.2.2⟩, fun h => ⟨h.1, h.2, h.3⟩⟩

/-- The number compares like each of two signed integers of which the first is larger. -/
structure Blurs (b : Number) (m n : Int) : Prop where
  long : IsLong m ∧ IsLong n
  lt : n < m
  inexact : ¬ b.IsLongInteger
  rounded : (integer m).rounded = b.rounded ∧ (integer n).rounded = b.rounded

theorem rounded_eq_of_same (h : a.same b = true) : a.rounded = b.rounded := by
  cases a <;> cases b <;> simp_all [same, rounded, toDouble?]

section
variable (ha : a.InRange) (hb : b.InRange)
include ha hb

theorem compare?_eq_some : a.compare? b = some (if a.IsLongInteger ∧ b.IsLongInteger then
    compare (Evaluation.size a) (Evaluation.size b) else compare a.rounded b.rounded) := by
  split
  · rename_i h
    obtain ⟨m, rfl, hm⟩ := exists_long h.1
    obtain ⟨n, rfl, hn⟩ := exists_long h.2
    exact compare?_of_long hm hn
  · rename_i h
    exact compare?_of_not_long ha hb h

theorem compare?_eq_eq_iff : a.compare? b = some .eq ↔ a.same b = true ∨ Confused a b := by
  rw [compare?_eq_some ha hb, Option.some_inj]
  split
  · rename_i h
    obtain ⟨m, rfl, hm⟩ := exists_long h.1
    obtain ⟨n, rfl, hn⟩ := exists_long h.2
    rw [compare_eq_iff_eq]
    refine ⟨fun h => .inl ?_, ?_⟩
    · simpa [same, Evaluation.size] using h
    · rintro (h | h)
      · simpa [same, Evaluation.size] using h
      · exact absurd ⟨hm, hn⟩ h.inexact
  · rename_i h
    rw [compare_eq_iff_eq]
    refine ⟨fun hr => ?_, ?_⟩
    · cases hs : a.same b with
      | true => exact .inl rfl
      | false => exact .inr ⟨hs, h, hr⟩
    · rintro (hs | hc)
      · exact rounded_eq_of_same hs
      · exact hc.rounded

theorem rounded_le_of_compare? (h : a.compare? b ≠ some .gt) : a.rounded ≤ b.rounded := by
  rw [compare?_eq_some ha hb, Ne, Option.some_inj] at h
  split at h
  · rename_i hlong
    obtain ⟨m, rfl, -⟩ := exists_long hlong.1
    obtain ⟨n, rfl, -⟩ := exists_long hlong.2
    exact rounded_mono ha hb (compare_le_iff_le.1 h)
  · exact compare_le_iff_le.1 h

end

theorem compare?_eq_gt_iff (ha : a.InRange) (hb : b.InRange) (hc : c.InRange) :
    (a.compare? b ≠ some .gt ∧ b.compare? c ≠ some .gt ∧ a.compare? c = some .gt) ↔
      ∃ m n, a = .integer m ∧ c = .integer n ∧ b.Blurs m n := by
  constructor
  · rintro ⟨hab, hbc, hac⟩
    have hrab := rounded_le_of_compare? ha hb hab
    have hrbc := rounded_le_of_compare? hb hc hbc
    rw [compare?_eq_some ha hc, Option.some_inj] at hac
    split at hac
    · rename_i hlong
      obtain ⟨m, rfl, hm⟩ := exists_long hlong.1
      obtain ⟨n, rfl, hn⟩ := exists_long hlong.2
      have hlt : n < m := compare_gt_iff_gt.1 hac
      have hrca := rounded_mono hc ha hlt.le
      refine ⟨m, n, rfl, rfl, ⟨hm, hn⟩, hlt, fun hbl => ?_, by omega, by omega⟩
      obtain ⟨k, rfl, hk⟩ := exists_long hbl
      rw [compare?_of_long hm hk, Ne, Option.some_inj] at hab
      rw [compare?_of_long hk hn, Ne, Option.some_inj] at hbc
      have hmk : m ≤ k := compare_le_iff_le.1 hab
      have hkn : k ≤ n := compare_le_iff_le.1 hbc
      omega
    · have hlt := compare_gt_iff_gt.1 hac
      omega
  · rintro ⟨m, n, rfl, rfl, hlong, hlt, hb', hm, hn⟩
    refine ⟨?_, ?_, ?_⟩
    · rw [compare?_of_not_long ha hb fun h => hb' h.2, hm, compare_eq_iff_eq.2 rfl]
      exact nofun
    · rw [compare?_of_not_long hb hc fun h => hb' h.1, hn, compare_eq_iff_eq.2 rfl]
      exact nofun
    · rw [compare?_of_long hlong.1 hlong.2]
      exact congrArg some (compare_gt_iff_gt.2 hlt)

end Number

def Value.InRange (v : Value) : Prop := ∀ a, v = .number a → a.InRange

namespace Evaluation
open Criteria

theorem sortOrder_self (v : Value) : sortOrder v v = .eq := by
  have hswap := sortOrder_swap v v
  cases h : sortOrder v v <;> simp_all

theorem sortOrder_number {a b : Number} (ha : a.InRange) (hb : b.InRange) :
    a.compare? b = some (sortOrder (.number a) (.number b)) := by
  have hsome := Number.compare?_eq_some ha hb
  rw [hsome]
  exact congrArg some (congrArg (·.getD .eq) hsome).symm

/-- The order of values is reflexive and turns around with its values, and it is transitive but for
a number that stands between two integers it blurs. -/
theorem sortOrder_trans_iff {u v w : Value} (hu : u.InRange) (hv : v.InRange) (hw : w.InRange) :
    sortOrder u u = .eq ∧ sortOrder v u = (sortOrder u v).swap ∧
      ((sortOrder u v ≠ .gt → sortOrder v w ≠ .gt → sortOrder u w ≠ .gt) ↔
        ¬ ∃ m n b, u = .integer m ∧ v = .number b ∧ w = .integer n ∧ b.Blurs m n) := by
  refine ⟨sortOrder_self u, sortOrder_swap u v, fun h => ?_, fun h => sortOrder_trans ?_⟩
  · rintro ⟨m, n, b, rfl, rfl, rfl, hb⟩
    obtain ⟨huv, hvw, huw⟩ := (Number.compare?_eq_gt_iff (hu _ rfl) (hv _ rfl) (hw _ rfl)).2
      ⟨m, n, rfl, rfl, hb⟩
    rw [sortOrder_number (hu _ rfl) (hv _ rfl), Ne, Option.some_inj] at huv
    rw [sortOrder_number (hv _ rfl) (hw _ rfl), Ne, Option.some_inj] at hvw
    rw [sortOrder_number (hu _ rfl) (hw _ rfl), Option.some_inj] at huw
    exact h huv hvw huw
  · rintro a b c rfl rfl rfl hab hbc hac
    have hgt := (Number.compare?_eq_gt_iff (hu a rfl) (hv b rfl) (hw c rfl)).1
    rw [sortOrder_number (hu a rfl) (hv b rfl), sortOrder_number (hv b rfl) (hw c rfl),
      sortOrder_number (hu a rfl) (hw c rfl)] at hgt
    obtain ⟨m, n, rfl, rfl, hblurs⟩ :=
      hgt ⟨fun h => hab (Option.some.inj h), fun h => hbc (Option.some.inj h), congrArg some hac⟩
    exact h ⟨m, n, b, rfl, rfl, rfl, hblurs⟩

/-- An unsigned integer blurs the two largest signed ones. -/
theorem sortOrder_trans_iff_wide :
    let wide : Value := .integer (2 ^ 63)
    wide.InRange ∧ ¬ (sortOrder (.integer (2 ^ 63 - 1)) wide ≠ .gt →
      sortOrder wide (.integer (2 ^ 63 - 2)) ≠ .gt →
        sortOrder (.integer (2 ^ 63 - 1)) (.integer (2 ^ 63 - 2)) ≠ .gt) := by
  intro wide
  have hinteger (n : Int) (h : (Number.integer n).InRange) : (Value.integer n).InRange := by
    rintro a ⟨⟩
    exact h
  have hwide := hinteger (2 ^ 63) (by decide)
  refine ⟨hwide, fun h => ?_⟩
  refine (sortOrder_trans_iff (hinteger _ (by decide)) hwide (hinteger _ (by decide))).2.2.1 h
    ⟨_, _, _, rfl, rfl, rfl, by decide, by decide, by decide, ?_⟩
  decide +kernel

/-- Rows stay in the wrong order when a double stands between them. -/
theorem sortOrder_blurred :
    let double : Value :=
      .number (.double ⟨false, 2 ^ 52, 1, by decide, by decide, .inl (by decide)⟩)
    let row (v : Value) : Value := .object [("x", v)]
    let vs := [row (.integer (2 ^ 53 + 1)), row double, row (.integer (2 ^ 53))]
    let q : Query := {
      result := .entity, roots := [⟨"E", "e"⟩], orders := [⟨.path ⟨"e", some "x"⟩, .asc⟩] }
    sortOrder (.integer (2 ^ 53 + 1)) double ≠ .gt ∧ sortOrder double (.integer (2 ^ 53)) ≠ .gt ∧
      sortOrder (.integer (2 ^ 53 + 1)) (.integer (2 ^ 53)) = .gt ∧
      (execute [("E", vs)] q []).map (Value.sameItems vs) = .ok true := by
  decide +kernel

section
variable {a b : Number}

theorem holds_number (op : Comparison) (ha : a.InRange) (hb : b.InRange) :
    holds op (.number a) (.number b) = match op with
      | .eq => a.same b
      | .ne => !a.same b
      | .gt => sortOrder (.number a) (.number b) == .gt
      | .ge => sortOrder (.number a) (.number b) != .lt
      | .lt => sortOrder (.number a) (.number b) == .lt
      | .le => sortOrder (.number a) (.number b) != .gt := by
  have horder : order? (.number a) (.number b) = some (sortOrder (.number a) (.number b)) :=
    sortOrder_number ha hb
  unfold holds
  rw [horder]
  cases op <;> cases sortOrder (.number a) (.number b) <;> rfl

/-- Two numbers differ exactly where they are not equal, and at most one of less, equal and greater
holds. One of them does, and the comparisons with equality are the disjunctions, exactly when the
numbers are not confused. -/
theorem holds_consistent_iff (ha : a.InRange) (hb : b.InRange) :
    let h (op : Comparison) := holds op (.number a) (.number b)
    (h .ne = !h .eq) ∧ [Comparison.lt, .eq, .gt].countP h ≤ 1 ∧
      ([Comparison.lt, .eq, .gt].countP h = 1 ↔ ¬ a.Confused b) ∧
      (h .le = (h .lt || h .eq) ↔ ¬ a.Confused b) ∧ (h .ge = (h .gt || h .eq) ↔ ¬ a.Confused b) := by
  have heq := Number.compare?_eq_eq_iff ha hb
  rw [sortOrder_number ha hb, Option.some_inj] at heq
  have hdiffer := @Number.Confused.differ a b
  simp only [holds_number _ ha hb, List.countP_cons, List.countP_nil]
  cases hs : a.same b <;> cases ho : sortOrder (.number a) (.number b) <;>
    simp_all

/-- An integer and the double next to its own. -/
theorem holds_consistent_iff_adjacent :
    let x : Number := .integer (2 ^ 53 + 1)
    let y : Number := .double ⟨false, 2 ^ 52 + 1, 1, by decide, by decide, .inl (by decide)⟩
    let h (op : Comparison) := holds op (.number x) (.number y)
    x.InRange ∧ y.InRange ∧ [Comparison.lt, .eq, .gt].countP h = 1 ∧ h .le = (h .lt || h .eq) ∧
      h .ge = (h .gt || h .eq) := by
  intro x y h
  have hx : x.InRange := by decide
  have hy : y.InRange := trivial
  have hconfused : ¬ x.Confused y := by decide +kernel
  obtain ⟨-, -, hone, hle, hge⟩ := holds_consistent_iff hx hy
  exact ⟨hx, hy, hone.2 hconfused, hle.2 hconfused, hge.2 hconfused⟩

/-- None of less, equal and greater holds of two large integers or of an integer and its double, but
both comparisons with equality do. -/
theorem holds_of_confused :
    let one : Value := .number (.double ⟨false, 2 ^ 52, -52, by decide, by decide, .inl (by decide)⟩)
    let ops : List Comparison := [.lt, .eq, .gt, .le, .ge, .ne]
    ops.map (holds · (.integer (2 ^ 63)) (.integer (2 ^ 63 + 1))) =
        [false, false, false, true, true, true] ∧
      ops.map (holds · (.integer 1) one) = [false, false, false, true, true, true] := by
  decide +kernel

end

end Evaluation

end EntityQuery
