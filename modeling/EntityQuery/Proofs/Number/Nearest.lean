import Mathlib
import EntityQuery.Number.Basic
/-! Rounding to doubles. The double of a fraction is one of those nearest to it, so the doubles of
integers are in the order of the integers, though different integers may have one double. -/
namespace EntityQuery

namespace Double

def one : Nat := 2 ^ 1074

theorem one_eq : one = 2 ^ 1074 := rfl

theorem one_pos : 0 < one := by
  rw [one_eq]
  positivity

attribute [irreducible] one

theorem mul_two_pow_add (d E k : Nat) : d * 2 ^ (E + k) = 2 ^ k * (d * 2 ^ E) := by
  rw [pow_add]
  ac_rfl

section
variable {n d : Nat}

theorem roundDiv_cases (n d : Nat) : (roundDiv n d = n / d ∧ 2 * (n % d) ≤ d) ∨
    (roundDiv n d = n / d + 1 ∧ d ≤ 2 * (n % d)) := by
  unfold roundDiv
  split
  · rename_i h
    exact .inl ⟨rfl, by omega⟩
  · rename_i h
    exact .inr ⟨rfl, by omega⟩

/-- No multiple of `d` is nearer to `n` than the rounded one. -/
theorem roundDiv_nearest (hd : 0 < d) (k : Nat) :
    ((roundDiv n d * d : Nat) - n : Int).natAbs ≤ ((k * d : Nat) - n : Int).natAbs := by
  have hn : n / d * d + n % d = n := Nat.div_add_mod' n d
  have hmod := Nat.mod_lt n hd
  have hside : k * d ≤ n / d * d ∨ n / d * d + d ≤ k * d := by
    obtain h | h := Nat.lt_or_ge (n / d) k
    · exact .inr (by simpa [Nat.succ_mul] using Nat.mul_le_mul_right d h)
    · exact .inl (Nat.mul_le_mul_right d h)
  obtain ⟨hr, hhalf⟩ | ⟨hr, hhalf⟩ := roundDiv_cases n d
  · rw [hr]
    omega
  · rw [hr, Nat.succ_mul]
    omega

theorem roundDiv_mul_right (n d : Nat) {c : Nat} (hc : 0 < c) :
    roundDiv (n * c) (d * c) = roundDiv n d := by
  have hlt : 2 * (n % d * c) < d * c ↔ 2 * (n % d) < d := by
    rw [← Nat.mul_assoc, Nat.mul_lt_mul_right hc]
  have heq : 2 * (n % d * c) = d * c ↔ 2 * (n % d) = d := by
    rw [← Nat.mul_assoc, Nat.mul_left_inj hc.ne']
  simp only [roundDiv, Nat.mul_mod_mul_right, Nat.mul_div_mul_right _ _ hc, hlt, heq]

theorem roundDiv_congr {n' d' : Nat} (hd : 0 < d) (hd' : 0 < d') (h : n * d' = n' * d) :
    roundDiv n d = roundDiv n' d' := by
  rw [← roundDiv_mul_right n d hd', ← roundDiv_mul_right n' d' hd, h, Nat.mul_comm d d']

theorem atScale_pos (hd : 0 < d) (e : Int) : 0 < (atScale n d e).2 := by
  unfold atScale
  split
  · exact Nat.mul_pos hd (Nat.pow_pos (by decide))
  · exact hd

theorem atScale_cross (n d E : Nat) : (atScale n d (E - 1074)).1 * (d * 2 ^ E) =
    n * one * (atScale n d (E - 1074)).2 := by
  unfold atScale
  split
  · obtain ⟨k, rfl⟩ : ∃ k, E = k + 1074 := ⟨E - 1074, by omega⟩
    have hk : (((k + 1074 : Nat) : Int) - 1074).toNat = k := by omega
    have hpow : 2 ^ (k + 1074) = 2 ^ k * one := by rw [one_eq, pow_add]
    simp only [hk, Nat.pow_eq, hpow]
    ac_rfl
  · obtain ⟨k, hk⟩ : ∃ k, E + k = 1074 := ⟨1074 - E, by omega⟩
    have hk' : (-((E : Int) - 1074)).toNat = k := by omega
    have hpow : one = 2 ^ E * 2 ^ k := by rw [one_eq, ← hk, pow_add]
    simp only [hk', Nat.pow_eq, hpow]
    ac_rfl

/-- The exponent is the one under which the fraction has 53 binary digits before the point, or the
least exponent if it has fewer under that. -/
theorem exponentFor_eq (hn : 0 < n) (hd : 0 < d) : ∃ E : Nat, exponentFor n d = E - 1074 ∧
    n * one < d * 2 ^ (E + 53) ∧ (E = 0 ∨ d * 2 ^ (E + 52) ≤ n * one) := by
  have hn1 := Nat.log2_self_le hn.ne'
  have hn2 := Nat.lt_log2_self (n := n)
  have hd1 := Nat.log2_self_le hd.ne'
  have hd2 := Nat.lt_log2_self (n := d)
  obtain ⟨E, hE⟩ : ∃ E : Nat, E = n.log2 + 1021 - d.log2 := ⟨_, rfl⟩
  have he : max ((n.log2 : Int) - d.log2 - 53) (-1074) = E - 1074 := by omega
  have hpos := atScale_pos (n := n) hd ((E : Int) - 1074)
  have hquot : (atScale n d (E - 1074)).1 / (atScale n d (E - 1074)).2 < 2 ^ 53 ↔
      n * one < d * 2 ^ (E + 53) := by
    have hbound : 2 ^ 53 * (atScale n d (E - 1074)).2 * (d * 2 ^ E) =
        d * 2 ^ (E + 53) * (atScale n d (E - 1074)).2 := by
      rw [mul_two_pow_add, Nat.mul_right_comm]
    rw [Nat.div_lt_iff_lt_mul hpos, ← Nat.mul_lt_mul_right (Nat.mul_pos hd (Nat.two_pow_pos E)),
      atScale_cross, hbound, Nat.mul_lt_mul_right hpos]
  unfold exponentFor
  simp only [he, Nat.pow_eq]
  split
  · rename_i h
    refine ⟨E, rfl, hquot.1 h, ?_⟩
    by_cases h0 : E = 0
    · exact .inl h0
    · refine .inr ?_
      calc d * 2 ^ (E + 52)
        _ ≤ 2 ^ (d.log2 + 1) * 2 ^ (E + 52) := Nat.mul_le_mul_right _ hd2.le
        _ = 2 ^ n.log2 * one := by
          rw [one_eq, ← pow_add, ← pow_add]
          congr 1
          omega
        _ ≤ n * one := Nat.mul_le_mul_right _ hn1
  · rename_i h
    refine ⟨E + 1, by omega, ?_, .inr ?_⟩
    · calc n * one
        _ < 2 ^ (n.log2 + 1) * one := Nat.mul_lt_mul_of_pos_right hn2 one_pos
        _ = 2 ^ (n.log2 + 1 + 1074) := by rw [one_eq, ← pow_add]
        _ ≤ 2 ^ (d.log2 + (E + 1 + 53)) := Nat.pow_le_pow_right (by decide) (by omega)
        _ ≤ d * 2 ^ (E + 1 + 53) := by
          rw [pow_add]
          exact Nat.mul_le_mul_right _ hd1
    · have hle := not_lt.1 (mt hquot.2 h)
      rwa [show E + 1 + 52 = E + 53 by omega]

end

def magnitude (x : Double) : Nat := x.mantissa * 2 ^ (x.exponent + 1074).toNat

theorem units_eq (x : Double) :
    x.units = if x.negative then -(x.magnitude : Int) else x.magnitude := by
  simp [units, magnitude]

theorem ofParts?_eq_some {s : Bool} {m : Nat} {e : Int} {x : Double}
    (h : ofParts? s m e = some x) : x.negative = s ∧ x.mantissa = m ∧ x.exponent = e := by
  unfold ofParts? at h
  split at h
  · cases h
    exact ⟨rfl, rfl, rfl⟩
  · cases h

/-- A double is a multiple of `2 ^ E`, or too small for the exponent. -/
theorem magnitude_grid (x : Double) (E : Nat) :
    (∃ k, x.magnitude = k * 2 ^ E) ∨ (0 < E ∧ x.magnitude < 2 ^ 52 * 2 ^ E) := by
  unfold magnitude
  obtain h | h := Nat.lt_or_ge (x.exponent + 1074).toNat E
  · refine .inr ⟨by omega, ?_⟩
    have hm : x.mantissa < 2 ^ 53 := x.mantissa_lt
    calc x.mantissa * 2 ^ (x.exponent + 1074).toNat
      _ < 2 ^ 53 * 2 ^ (x.exponent + 1074).toNat :=
        Nat.mul_lt_mul_of_pos_right hm (Nat.two_pow_pos _)
      _ = 2 ^ (53 + (x.exponent + 1074).toNat) := (pow_add ..).symm
      _ ≤ 2 ^ (52 + E) := Nat.pow_le_pow_right (by decide) (by omega)
      _ = 2 ^ 52 * 2 ^ E := pow_add ..
  · refine .inl ⟨x.mantissa * 2 ^ ((x.exponent + 1074).toNat - E), ?_⟩
    rw [Nat.mul_assoc, ← pow_add, Nat.sub_add_cancel h]

section
variable {n d : Nat} {s : Bool} {x : Double}

theorem nearest?_of_parts (hn : 0 < n) (hd : 0 < d) {E : Nat} (hE : exponentFor n d = E - 1074) :
    nearest? s n d = if roundDiv (n * one) (d * 2 ^ E) = 2 ^ 53 then
      ofParts? s (2 ^ 52) ((E + 1 : Nat) - 1074)
    else ofParts? s (roundDiv (n * one) (d * 2 ^ E)) (E - 1074) := by
  have hround : roundDiv (atScale n d (E - 1074)).1 (atScale n d (E - 1074)).2 =
      roundDiv (n * one) (d * 2 ^ E) :=
    roundDiv_congr (atScale_pos hd _) (Nat.mul_pos hd (Nat.two_pow_pos E)) (atScale_cross n d E)
  have hsucc : (E : Int) - 1074 + 1 = (E + 1 : Nat) - 1074 := by omega
  unfold nearest?
  simp only [if_neg hn.ne', hE, hround, hsucc, Nat.pow_eq]

theorem roundDiv_le_of_lt {E : Nat} (hd : 0 < d) (h : n * one < d * 2 ^ (E + 53)) :
    roundDiv (n * one) (d * 2 ^ E) ≤ 2 ^ 53 := by
  have hlt : n * one / (d * 2 ^ E) < 2 ^ 53 := by
    rw [Nat.div_lt_iff_lt_mul (Nat.mul_pos hd (Nat.two_pow_pos E))]
    exact h.trans_eq (mul_two_pow_add d E 53)
  obtain ⟨hr, -⟩ | ⟨hr, -⟩ := roundDiv_cases (n * one) (d * 2 ^ E) <;> omega

/-- What a fraction is rounded to is the nearest multiple of the last place. -/
theorem nearest?_eq_some (hn : 0 < n) (hd : 0 < d) (h : nearest? s n d = some x) :
    x.negative = s ∧ ∃ E : Nat, (E = 0 ∨ d * 2 ^ (E + 52) ≤ n * one) ∧
      x.magnitude = roundDiv (n * one) (d * 2 ^ E) * 2 ^ E := by
  obtain ⟨E, hE, -, hlow⟩ := exponentFor_eq hn hd
  rw [nearest?_of_parts hn hd hE] at h
  split at h
  · rename_i hround
    obtain ⟨hs, hm, he⟩ := ofParts?_eq_some h
    refine ⟨hs, E, hlow, ?_⟩
    rw [magnitude, hm, he, hround, show (((E + 1 : Nat) : Int) - 1074 + 1074).toNat = E + 1 by omega]
    ring
  · obtain ⟨hs, hm, he⟩ := ofParts?_eq_some h
    refine ⟨hs, E, hlow, ?_⟩
    rw [magnitude, hm, he, show ((E : Int) - 1074 + 1074).toNat = E by omega]

theorem nearest?_nearest (hd : 0 < d) (h : nearest? s n d = some x) (y : Double) :
    ((x.magnitude * d : Nat) - (n * one : Nat) : Int).natAbs ≤
      ((y.magnitude * d : Nat) - (n * one : Nat) : Int).natAbs := by
  obtain rfl | hn := n.eq_zero_or_pos
  · obtain rfl : zero s = x := by simpa [nearest?] using h
    simp [magnitude, zero]
  · obtain ⟨-, E, hlow, hx⟩ := nearest?_eq_some hn hd h
    have hD : 0 < d * 2 ^ E := Nat.mul_pos hd (Nat.two_pow_pos E)
    have hxd : x.magnitude * d = roundDiv (n * one) (d * 2 ^ E) * (d * 2 ^ E) := by
      rw [hx]
      ac_rfl
    rw [hxd]
    obtain ⟨k, hk⟩ | ⟨hE, hy⟩ := y.magnitude_grid E
    · have hyd : y.magnitude * d = k * (d * 2 ^ E) := by
        rw [hk]
        ac_rfl
      rw [hyd]
      exact roundDiv_nearest hD k
    · -- A double of a smaller exponent lies below the least one of this exponent, which lies below.
      have hleast := roundDiv_nearest (n := n * one) hD (2 ^ 52)
      have hbelow : 2 ^ 52 * (d * 2 ^ E) ≤ n * one :=
        (mul_two_pow_add d E 52).symm.trans_le (hlow.resolve_left hE.ne')
      have hyd : y.magnitude * d ≤ 2 ^ 52 * (d * 2 ^ E) := by
        rw [Nat.mul_left_comm, ← Nat.mul_comm _ d]
        exact Nat.mul_le_mul_right d hy.le
      generalize n * one = N at *
      generalize 2 ^ 52 * (d * 2 ^ E) = B at *
      omega

theorem exists_nearest? (s : Bool) (hd : 0 < d) (h : n < 2 ^ 1023 * d) :
    ∃ x, nearest? s n d = some x := by
  obtain rfl | hn := n.eq_zero_or_pos
  · exact ⟨zero s, by simp [nearest?]⟩
  · obtain ⟨E, hE, hhigh, hlow⟩ := exponentFor_eq hn hd
    have hround := roundDiv_le_of_lt hd hhigh
    have hfits : E ≤ 2044 := by
      by_contra hlt
      have hle := hlow.resolve_left (by omega)
      have hmul : d * 2 ^ (E + 52) < d * 2 ^ (1023 + 1074) := by
        calc d * 2 ^ (E + 52) ≤ n * one := hle
          _ < 2 ^ 1023 * d * one := Nat.mul_lt_mul_of_pos_right h one_pos
          _ = d * 2 ^ (1023 + 1074) := by rw [one_eq, pow_add, Nat.mul_comm _ d, Nat.mul_assoc]
      have hexp := (Nat.pow_lt_pow_iff_right (by decide : 1 < 2)).1 (Nat.lt_of_mul_lt_mul_left hmul)
      omega
    have hnormal : E = 0 ∨ 2 ^ 52 ≤ roundDiv (n * one) (d * 2 ^ E) := by
      refine hlow.imp_right fun hle => ?_
      have hdiv : 2 ^ 52 ≤ n * one / (d * 2 ^ E) := by
        rw [Nat.le_div_iff_mul_le (Nat.mul_pos hd (Nat.two_pow_pos E))]
        exact (mul_two_pow_add d E 52).symm.trans_le hle
      obtain ⟨hr, -⟩ | ⟨hr, -⟩ := roundDiv_cases (n * one) (d * 2 ^ E) <;> omega
    rw [nearest?_of_parts hn hd hE]
    unfold ofParts?
    simp only [Nat.pow_eq]
    split
    · exact ⟨_, dif_pos ⟨by decide, by omega, .inl le_rfl⟩⟩
    · exact ⟨_, dif_pos ⟨by omega, by omega, by omega⟩⟩

end

theorem nearest?_negative {n d : Nat} {s : Bool} {x : Double} (hd : 0 < d)
    (h : nearest? s n d = some x) : x.negative = s := by
  obtain rfl | hn := n.eq_zero_or_pos
  · obtain rfl : zero s = x := by simpa [nearest?] using h
    rfl
  · exact (nearest?_eq_some hn hd h).1

theorem exists_ofInt? {n : Int} (h : n.natAbs < 2 ^ 1023) : ∃ x, ofInt? n = some x ∧
    ∀ y : Double, (x.units - n * one).natAbs ≤ (y.units - n * one).natAbs := by
  obtain ⟨x, hx⟩ := exists_nearest? (n := n.natAbs) (d := 1) (n < 0) (by decide) (by omega)
  refine ⟨x, hx, fun y => ?_⟩
  have hsign := nearest?_negative (by decide) hx
  have hy := nearest?_nearest (by decide) hx y
  -- A double of the other sign is further away than zero.
  have hzero := nearest?_nearest (by decide) hx (zero false)
  have hn : n * one = if n < 0 then -((n.natAbs * one : Nat) : Int) else (n.natAbs * one : Nat) := by
    split
    · rw [Nat.cast_mul, ← neg_mul, Int.ofNat_natAbs_of_nonpos (by omega), neg_neg]
    · rw [Nat.cast_mul, Int.natAbs_of_nonneg (by omega)]
  simp only [mul_one, magnitude, zero, zero_mul] at hy hzero
  rw [hn, units_eq, units_eq, hsign, magnitude, magnitude]
  generalize n.natAbs * one = N at *
  generalize x.mantissa * 2 ^ (x.exponent + 1074).toNat = X at *
  generalize y.mantissa * 2 ^ (y.exponent + 1074).toNat = Y at *
  by_cases hneg : n < 0 <;> cases y.negative <;> simp only [hneg] <;> simp <;> omega

end Double

end EntityQuery
