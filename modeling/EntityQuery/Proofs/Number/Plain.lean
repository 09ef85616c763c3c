import EntityQuery.Proofs.Number.Shortest
/-! Which doubles are written without an exponent. The notation is chosen by the power of the first
digit of the shortest decimal, which tells on which side of a power of ten the double itself is. -/
namespace EntityQuery.Double

/-- Zero, or from `0.00001` to below `10 ^ 16`. -/
def IsPlain (x : Double) : Prop :=
  x.mantissa = 0 ∨ (10 ^ (-5 : Int) ≤ x.size ∧ x.size < 10 ^ (16 : Int))

def writtenSize (x : Double) : ℚ := x.shortest.1 * 10 ^ x.shortest.2

section
variable {s : Bool} {c : Nat} {k j : Int} {x y : Double}

theorem magnitude_eq (x : Double) : (x.magnitude : ℚ) = x.size * one := by
  have hone : (one : ℚ) = 2 ^ (1074 : Int) := by
    rw [one_eq, Nat.cast_pow, Nat.cast_ofNat]
    rfl
  have hplace : (x.magnitude : ℚ) = x.mantissa * 2 ^ (x.exponent + 1074) := by
    unfold magnitude
    push_cast
    rw [zpow_toNat (by have := x.exponent_mem; omega)]
  rw [hplace, hone, size, zpow_add₀ (by norm_num), mul_assoc]

theorem ofDecimal?_nearest (h : ofDecimal? s c k = some x) (y : Double) :
    |x.size - c * 10 ^ k| ≤ |y.size - c * 10 ^ k| := by
  rw [ofDecimal?_eq] at h
  have hd : 0 < (scaled 10 c k).2 := scaled_pos (by decide) c k
  have hnear := nearest?_nearest hd h y
  have hvalue : ((scaled 10 c k).1 : ℚ) = c * (10 : Nat) ^ k * (scaled 10 c k).2 :=
    scaled_value (by decide) c k
  generalize (scaled 10 c k).1 = n at *
  generalize (scaled 10 c k).2 = d at *
  have hpos : (0 : ℚ) < one * d := by
    have hone : (0 : ℚ) < one := by exact_mod_cast one_pos
    have hd' : (0 : ℚ) < d := by exact_mod_cast hd
    positivity
  have hcast (z : Double) : (((z.magnitude * d : Nat) - (n * one : Nat) : Int).natAbs : ℚ) =
      |z.size - c * 10 ^ k| * (one * d) := by
    have habs : |(z.size - c * 10 ^ k) * (one * d)| = |z.size - c * 10 ^ k| * (one * d) := by
      rw [abs_mul, abs_of_pos hpos]
    rw [← habs, Nat.cast_natAbs, Int.cast_abs]
    push_cast
    rw [magnitude_eq, hvalue, Nat.cast_ofNat]
    congr 1
    ring
  have hle : (((x.magnitude * d : Nat) - (n * one : Nat) : Int).natAbs : ℚ) ≤
      ((y.magnitude * d : Nat) - (n * one : Nat) : Int).natAbs := by exact_mod_cast hnear
  rw [hcast, hcast] at hle
  exact le_of_mul_le_mul_right hle hpos

theorem shortest_congr (hm : x.mantissa = y.mantissa) (he : x.exponent = y.exponent) :
    x.shortest = y.shortest := by
  simp only [shortest, fraction, hm, he]

theorem exponent_le_of_size_eq (h : x.size = y.size) : y.exponent ≤ x.exponent := by
  by_contra hlt
  rw [not_le] at hlt
  have hx := x.exponent_mem
  have hnormal : 2 ^ 52 ≤ y.mantissa := y.canonical.resolve_right (by omega)
  have hmantissa : x.mantissa < 2 ^ 53 := x.mantissa_lt
  have hshift : (x.mantissa : ℚ) = y.mantissa * 2 ^ (y.exponent - x.exponent) := by
    rw [zpow_sub₀ (by norm_num), ← mul_div_assoc, eq_div_iff (by positivity)]
    exact h
  have hdouble : (2 : ℚ) ^ (1 : Int) ≤ 2 ^ (y.exponent - x.exponent) :=
    zpow_le_zpow_right₀ (by norm_num) (by omega)
  rw [zpow_one] at hdouble
  have hlarge : (2 ^ 53 : ℚ) ≤ x.mantissa := by
    calc (2 ^ 53 : ℚ) = 2 ^ 52 * 2 := by norm_num
      _ ≤ y.mantissa * 2 ^ (y.exponent - x.exponent) := by
        gcongr
        exact_mod_cast hnormal
      _ = x.mantissa := hshift.symm
  have : 2 ^ 53 ≤ x.mantissa := by exact_mod_cast hlarge
  omega

theorem parts_of_size_eq (h : x.size = y.size) :
    x.mantissa = y.mantissa ∧ x.exponent = y.exponent := by
  have he := le_antisymm (exponent_le_of_size_eq h.symm) (exponent_le_of_size_eq h)
  refine ⟨?_, he⟩
  rw [size, size, he] at h
  exact_mod_cast mul_right_cancel₀ (by positivity) h

end

/-- The double that a power of ten is read as, where it is not below that power. -/
structure Edge (t : Double) (j : Int) : Prop where
  read : ∀ s, ofDecimal? s 1 j = some { t with negative := s }
  above : 10 ^ j ≤ t.size
  shortest : t.shortest = (1, j)

section
variable {t x : Double} {j : Int}

/-- A double and its shortest decimal are on one side of the power of ten of an edge. -/
theorem Edge.le_iff (h : Edge t j) (hm : x.mantissa ≠ 0) :
    10 ^ j ≤ x.writtenSize ↔ 10 ^ j ≤ x.size := by
  have hx := ofDecimal?_nearest (ofDecimal?_shortest hm) t
  have ht := ofDecimal?_nearest (h.read x.negative) x
  have habove := h.above
  change |x.size - x.writtenSize| ≤ |t.size - x.writtenSize| at hx
  change |t.size - (1 : Nat) * 10 ^ j| ≤ |x.size - (1 : Nat) * 10 ^ j| at ht
  rw [Nat.cast_one, one_mul] at ht
  constructor
  · intro hle
    by_contra hlt
    rw [not_le] at hlt
    rw [abs_of_nonpos (by linarith : x.size - x.writtenSize ≤ 0)] at hx
    rw [abs_of_nonneg (by linarith : 0 ≤ t.size - 10 ^ j),
      abs_of_nonpos (by linarith : x.size - 10 ^ j ≤ 0)] at ht
    -- The edge is above, and no further away only if the decimal is the power.
    obtain hfar | hnear := le_or_gt t.size x.writtenSize
    · rw [abs_of_nonpos (by linarith : t.size - x.writtenSize ≤ 0)] at hx
      linarith
    · rw [abs_of_nonneg (by linarith : 0 ≤ t.size - x.writtenSize)] at hx
      have heq : (x.shortest.1 : ℚ) * 10 ^ x.shortest.2 = (1 : Nat) * 10 ^ j := by
        rw [Nat.cast_one, one_mul]
        exact le_antisymm (by rw [← writtenSize]; linarith) hle
      have hsame := (ofDecimal?_congr heq x.negative).symm.trans (ofDecimal?_shortest hm)
      rw [h.read x.negative] at hsame
      have hsize : x.size = t.size := by rw [← Option.some.inj hsame]; rfl
      linarith
  · intro hle
    by_contra hlt
    rw [not_le] at hlt
    rw [abs_of_nonneg (by linarith : 0 ≤ x.size - x.writtenSize),
      abs_of_nonneg (by linarith : 0 ≤ t.size - x.writtenSize)] at hx
    rw [abs_of_nonneg (by linarith : 0 ≤ t.size - 10 ^ j),
      abs_of_nonneg (by linarith : 0 ≤ x.size - 10 ^ j)] at ht
    have hsize : x.size = t.size := by linarith
    obtain ⟨hmantissa, hexponent⟩ := parts_of_size_eq hsize
    rw [writtenSize, shortest_congr hmantissa hexponent, h.shortest] at hlt
    simp at hlt

/-- The double that `0.00001` is read as. It is a little larger. -/
theorem edge_small : Edge ⟨false, 5902958103587057, -69, by decide, by decide, by decide⟩ (-5) := by
  refine ⟨fun s => ?_, ?_, by decide +kernel⟩
  · cases s <;> rfl
  · norm_num [size]

theorem edge_large : Edge ⟨false, 5000000000000000, 1, by decide, by decide, by decide⟩ 16 := by
  refine ⟨fun s => ?_, ?_, by decide +kernel⟩
  · cases s <;> rfl
  · norm_num [size]

theorem isPlain_iff (hm : x.mantissa ≠ 0) :
    x.IsPlain ↔ 10 ^ (-5 : Int) ≤ x.writtenSize ∧ x.writtenSize < 10 ^ (16 : Int) := by
  rw [IsPlain, edge_small.le_iff hm, ← not_le (b := x.writtenSize), edge_large.le_iff hm, not_le]
  simp [hm]

theorem le_first_iff {c : Nat} (hc : 0 < c) (j k : Int) :
    j ≤ k + (Nat.toDigits 10 c).length - 1 ↔ (10 : ℚ) ^ j ≤ c * 10 ^ k := by
  have hlen : 0 < (Nat.toDigits 10 c).length := Nat.length_toDigits_pos
  have hshift : (10 : ℚ) ^ j ≤ c * 10 ^ k ↔ (10 : ℚ) ^ (j - k) ≤ c := by
    rw [zpow_sub₀ (by norm_num), div_le_iff₀ (by positivity)]
  rw [hshift]
  obtain hle | hlt := le_or_gt j k
  · refine iff_of_true (by omega) ?_
    calc (10 : ℚ) ^ (j - k) ≤ 10 ^ (0 : Int) := zpow_le_zpow_right₀ (by norm_num) (by omega)
      _ = (1 : Nat) := by norm_num
      _ ≤ c := by exact_mod_cast hc
  · obtain ⟨n, hn⟩ : ∃ n : Nat, j - k = n := ⟨(j - k).toNat, by omega⟩
    have hdigits := Nat.length_toDigits_le_iff (b := 10) (n := c) (by decide) (by omega : 0 < n)
    have hcast : (10 : ℚ) ^ (j - k) ≤ c ↔ 10 ^ n ≤ c := by
      rw [hn, zpow_natCast]
      exact_mod_cast Iff.rfl
    rw [hcast]
    omega

theorem shortest_pos (hm : x.mantissa ≠ 0) : 0 < x.shortest.1 := by
  refine Nat.pos_of_ne_zero fun h0 => ?_
  have hread := ofDecimal?_shortest hm
  have hnone : ((0 : Nat) : ℚ) * 10 ^ x.shortest.2 = (0 : Nat) * 10 ^ (0 : Int) := by simp
  rw [h0, ofDecimal?_congr hnone] at hread
  have hzero : zero x.negative = x := Option.some.inj hread
  rw [← hzero] at hm
  exact hm rfl

theorem positional_iff (hm : x.mantissa ≠ 0) : (layout.plainFrom ≤
      x.shortest.2 + (Nat.toDigits 10 x.shortest.1).length - 1 ∧
    x.shortest.2 + (Nat.toDigits 10 x.shortest.1).length - 1 < layout.plainBelow) ↔ x.IsPlain := by
  rw [isPlain_iff hm, ← not_le, ← not_le (b := x.writtenSize), le_first_iff (shortest_pos hm),
    le_first_iff (shortest_pos hm)]
  rfl

end

end EntityQuery.Double
