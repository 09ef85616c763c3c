import EntityQuery.Proofs.Number.Nearest
/-! The fractions that round to a double: those within half a unit of its last place, and below a
power of two within a quarter of one. -/
namespace EntityQuery.Double

section
variable {n d E m : Nat}

theorem exponentFor_of_bounds (hn : 0 < n) (hd : 0 < d) (hhigh : n * one < d * 2 ^ (E + 53))
    (hlow : E = 0 ∨ d * 2 ^ (E + 52) ≤ n * one) : exponentFor n d = E - 1074 := by
  obtain ⟨E', hE', hhigh', hlow'⟩ := exponentFor_eq hn hd
  have hlt : ∀ {a b : Nat}, d * 2 ^ (a + 52) ≤ n * one → n * one < d * 2 ^ (b + 53) → a ≤ b := by
    intro a b ha hb
    have hpow := Nat.lt_of_mul_lt_mul_left (ha.trans_lt hb)
    have hexp := (Nat.pow_lt_pow_iff_right (by decide : 1 < 2)).1 hpow
    omega
  have heq : E' = E := by
    refine Nat.le_antisymm ?_ ?_
    · exact hlow'.elim (fun h => h ▸ Nat.zero_le E) fun h => hlt h hhigh
    · exact hlow.elim (fun h => h ▸ Nat.zero_le E') fun h => hlt h hhigh'
  rw [hE', heq]

theorem cross_le {n' d' a b : Nat} (hd : 0 < d) (h : n * d' = n' * d) (hle : d * a ≤ n * b) :
    d' * a ≤ n' * b := by
  refine Nat.le_of_mul_le_mul_right ?_ hd
  calc d' * a * d = d * a * d' := by ring
    _ ≤ n * b * d' := Nat.mul_le_mul_right d' hle
    _ = n * d' * b := Nat.mul_right_comm ..
    _ = n' * b * d := by rw [h, Nat.mul_right_comm]

theorem cross_lt {n' d' a b : Nat} (hd' : 0 < d') (h : n * d' = n' * d) (hlt : n * b < d * a) :
    n' * b < d' * a := by
  refine Nat.lt_of_mul_lt_mul_right (a := d) ?_
  calc n' * b * d = n * d' * b := by rw [h, Nat.mul_right_comm]
    _ = n * b * d' := Nat.mul_right_comm ..
    _ < d * a * d' := Nat.mul_lt_mul_of_pos_right hlt hd'
    _ = d' * a * d := by ring

theorem nearest?_congr {n' d' : Nat} (hd : 0 < d) (hd' : 0 < d') (h : n * d' = n' * d) (s : Bool) :
    nearest? s n d = nearest? s n' d' := by
  obtain rfl | hn := n.eq_zero_or_pos
  · have hn' : n' = 0 := by
      rw [zero_mul] at h
      exact (Nat.mul_eq_zero.1 h.symm).resolve_right hd.ne'
    rw [hn', nearest?, nearest?, if_pos rfl, if_pos rfl]
  · have hn' : 0 < n' := by
      refine Nat.pos_of_ne_zero fun h0 => ?_
      rw [h0, zero_mul] at h
      exact (Nat.mul_pos hn hd').ne' h
    obtain ⟨E, hE, hhigh, hlow⟩ := exponentFor_eq hn hd
    have hE' := exponentFor_of_bounds hn' hd' (cross_lt hd' h hhigh)
      (hlow.imp_right (cross_le hd h))
    have hround : roundDiv (n * one) (d * 2 ^ E) = roundDiv (n' * one) (d' * 2 ^ E) := by
      refine roundDiv_congr (Nat.mul_pos hd (Nat.two_pow_pos E))
        (Nat.mul_pos hd' (Nat.two_pow_pos E)) ?_
      calc n * one * (d' * 2 ^ E) = n * d' * (one * 2 ^ E) := by ring
        _ = n' * one * (d * 2 ^ E) := by rw [h]; ring
    rw [nearest?_of_parts hn hd hE, nearest?_of_parts hn' hd' hE', hround]

theorem roundDiv_eq (hd : 0 < d) (hlow : 2 * (m * d) ≤ 2 * n + d)
    (hhigh : 2 * n ≤ 2 * (m * d) + d)
    (hodd : m % 2 = 1 → 2 * (m * d) < 2 * n + d ∧ 2 * n < 2 * (m * d) + d) : roundDiv n d = m := by
  have hn : n / d * d + n % d = n := Nat.div_add_mod' n d
  have hmod := Nat.mod_lt n hd
  -- The quotient is the integer or the one below.
  have hquot : n / d = m ∨ n / d + 1 = m := by
    have hle : n / d ≤ m := by
      by_contra hlt
      have hmul : (m + 1) * d ≤ n / d * d := Nat.mul_le_mul_right d (by omega)
      rw [Nat.succ_mul] at hmul
      omega
    have hge : m ≤ n / d + 1 := by
      by_contra hlt
      have hmul : (n / d + 2) * d ≤ m * d := Nat.mul_le_mul_right d (by omega)
      rw [Nat.add_mul] at hmul
      omega
    omega
  unfold roundDiv
  rcases hquot with hq | hq
  · rw [hq] at hn ⊢
    rw [if_pos]
    by_cases hm : m % 2 = 1
    · have := hodd hm
      omega
    · omega
  · have hprod : m * d = n / d * d + d := by rw [← hq, Nat.add_mul, Nat.one_mul]
    rw [if_neg, hq]
    by_cases hm : m % 2 = 1
    · have := hodd hm
      omega
    · omega

end

/-- Quarters of a unit in the last place that the interval of a double reaches down. -/
def quartersBelow (x : Double) : Nat :=
  if x.mantissa = Nat.pow 2 52 ∧ -1074 < x.exponent then 1 else 2

/-- The power of two of the last place, counted from the least one. -/
def place (x : Double) : Nat := (x.exponent + 1074).toNat

/-- The fraction is in the interval of the double, the ends of which belong to even mantissas. -/
structure Within (x : Double) (n d : Nat) : Prop where
  low : (4 * x.mantissa - x.quartersBelow) * (d * 2 ^ x.place) ≤ 4 * (n * one)
  high : 4 * (n * one) ≤ (4 * x.mantissa + 2) * (d * 2 ^ x.place)
  inner : x.mantissa % 2 = 1 →
    (4 * x.mantissa - x.quartersBelow) * (d * 2 ^ x.place) < 4 * (n * one) ∧
      4 * (n * one) < (4 * x.mantissa + 2) * (d * 2 ^ x.place)

theorem ofParts?_eq (x : Double) : ofParts? x.negative x.mantissa x.exponent = some x := by
  unfold ofParts?
  rw [dif_pos ⟨x.mantissa_lt, x.exponent_mem, x.canonical⟩]

theorem exponent_eq (x : Double) : x.exponent = x.place - 1074 := by
  have := x.exponent_mem
  unfold place
  omega

/-- The fractions within the interval of a double round to it. -/
theorem Within.nearest? {x : Double} {n d : Nat} (hn : 0 < n) (hd : 0 < d) (h : Within x n d) :
    nearest? x.negative n d = some x := by
  obtain ⟨hlow, hhigh, hinner⟩ := h
  have hm : x.mantissa < 2 ^ 53 := x.mantissa_lt
  have hplace := x.exponent_eq
  have hP : 0 < d * 2 ^ x.place := Nat.mul_pos hd (Nat.two_pow_pos _)
  have hquarters : x.quartersBelow * (d * 2 ^ x.place) ≤ 2 * (d * 2 ^ x.place) := by
    refine Nat.mul_le_mul_right _ ?_
    unfold quartersBelow
    split <;> decide
  have htop : x.mantissa * (d * 2 ^ x.place) + d * 2 ^ x.place ≤ 2 ^ 53 * (d * 2 ^ x.place) := by
    rw [← Nat.succ_mul]
    exact Nat.mul_le_mul_right _ hm
  simp only [Nat.sub_mul, Nat.add_mul, Nat.mul_assoc 4] at hlow hhigh hinner
  by_cases hsame : x.place = 0 ∨ d * 2 ^ (x.place + 52) ≤ n * one
  · have hE := exponentFor_of_bounds hn hd (by rw [mul_two_pow_add]; omega) hsame
    have hround : roundDiv (n * one) (d * 2 ^ x.place) = x.mantissa := by
      refine roundDiv_eq hP (by omega) (by omega) fun hodd => ?_
      have := hinner hodd
      omega
    rw [nearest?_of_parts hn hd hE, hround, if_neg hm.ne, ← hplace, ofParts?_eq]
  · -- Below the least value of the exponent, the mantissa is rounded up to a power of two.
    obtain ⟨hpos, hbelow⟩ := not_or.1 hsame
    rw [mul_two_pow_add] at hbelow
    obtain ⟨E, hE⟩ := Nat.exists_eq_succ_of_ne_zero hpos
    have hnormal : 2 ^ 52 ≤ x.mantissa := x.canonical.resolve_right (by omega)
    have hpower : x.mantissa = 2 ^ 52 := by
      by_contra hne
      have hmul : (2 ^ 52 + 1) * (d * 2 ^ x.place) ≤ x.mantissa * (d * 2 ^ x.place) :=
        Nat.mul_le_mul_right _ (by omega)
      rw [Nat.succ_mul] at hmul
      omega
    have hquarter : x.quartersBelow = 1 := if_pos ⟨hpower, by omega⟩
    have hhalf : d * 2 ^ x.place = 2 * (d * 2 ^ E) := by
      rw [hE, Nat.succ_eq_add_one, pow_succ]
      ring
    rw [hpower, hquarter, hhalf] at hlow
    rw [hhalf] at hbelow
    have hE' := exponentFor_of_bounds (E := E) hn hd (by rw [mul_two_pow_add]; omega)
      (.inr (by rw [mul_two_pow_add]; omega))
    have hround : roundDiv (n * one) (d * 2 ^ E) = 2 ^ 53 :=
      roundDiv_eq (Nat.mul_pos hd (Nat.two_pow_pos E)) (by omega) (by omega) (by omega)
    have hexponent : ((E + 1 : Nat) : Int) - 1074 = x.exponent := by rw [hplace, hE]
    rw [nearest?_of_parts hn hd hE', hround, if_pos rfl, ← hpower, hexponent, ofParts?_eq]

end EntityQuery.Double
