import EntityQuery.Number.Shortest
import EntityQuery.Proofs.Number.Interval
/-! The shortest decimal of a double: there is one of at most seventeen digits, and it reads back as
the double. -/
namespace EntityQuery.Double

def scaled (base c : Nat) (k : Int) : Nat × Nat :=
  if 0 ≤ k then (c * Nat.pow base k.toNat, 1) else (c, Nat.pow base (-k).toNat)

/-- The steps of the grid `10 ^ k` and the quarters of a unit in the last place, in one measure. -/
def gridScale (exponent k : Int) : Nat × Nat :=
  let (num, one) := atScale 1 1 (2 - exponent)
  if 0 ≤ k then (Nat.pow 10 k.toNat * one, num) else (one, num * Nat.pow 10 (-k).toNat)

def size (x : Double) : ℚ := x.mantissa * 2 ^ x.exponent

/-- Whether the decimal `c` of a grid reads back, where `a` is a step and `b` a quarter. -/
def readsBack (x : Double) (a b c : Nat) : Bool :=
  let low := (4 * x.mantissa - x.quartersBelow) * b
  let high := (4 * x.mantissa + 2) * b
  if x.mantissa % 2 = 0 then low ≤ c * a && c * a ≤ high else low < c * a && c * a < high

def pick? (x : Double) (a b : Nat) : Option Nat :=
  let value := 4 * x.mantissa * b
  let c := value / a
  match readsBack x a b c, readsBack x a b (c + 1) with
  | false, false => none
  | true, false => some c
  | false, true => some (c + 1)
  | true, true =>
    let below := value - c * a
    let above := (c + 1) * a - value
    some (if below < above ∨ (below = above ∧ c % 2 = 0) then c else c + 1)

section
variable {c : Nat} {k : Int}

theorem ofDecimal?_eq (s : Bool) (c : Nat) (k : Int) :
    ofDecimal? s c k = nearest? s (scaled 10 c k).1 (scaled 10 c k).2 := by
  unfold ofDecimal? scaled
  split
  · rfl
  · rfl

theorem fraction_eq (x : Double) : x.fraction = scaled 2 x.mantissa x.exponent := by
  rfl

theorem onGrid?_eq (x : Double) (k : Int) : onGrid? x.mantissa x.exponent k =
    pick? x (gridScale x.exponent k).1 (gridScale x.exponent k).2 := by
  rfl

theorem scaled_pos {base : Nat} (hbase : 0 < base) (c : Nat) (k : Int) :
    0 < (scaled base c k).2 := by
  unfold scaled
  split
  · exact Nat.one_pos
  · exact Nat.pow_pos hbase

theorem zpow_toNat {q : ℚ} (h : 0 ≤ k) : q ^ k.toNat = q ^ k := by
  rw [← zpow_natCast, Int.toNat_of_nonneg h]

theorem scaled_value {base : Nat} (hbase : 0 < base) (c : Nat) (k : Int) :
    ((scaled base c k).1 : ℚ) = c * base ^ k * (scaled base c k).2 := by
  have hne : (base : ℚ) ≠ 0 := by positivity
  unfold scaled
  split
  · rename_i h
    simp only [Nat.pow_eq]
    push_cast
    rw [zpow_toNat h, mul_one]
  · rename_i h
    simp only [Nat.pow_eq]
    push_cast
    rw [zpow_toNat (by omega), mul_assoc, ← zpow_add₀ hne, add_neg_cancel, zpow_zero, mul_one]

theorem ofDecimal?_congr {c' : Nat} {k' : Int} (h : (c : ℚ) * 10 ^ k = c' * 10 ^ k') (s : Bool) :
    ofDecimal? s c k = ofDecimal? s c' k' := by
  rw [ofDecimal?_eq, ofDecimal?_eq]
  refine nearest?_congr (scaled_pos (by decide) c k) (scaled_pos (by decide) c' k') ?_ s
  have hcast : ((scaled 10 c k).1 : ℚ) * (scaled 10 c' k').2 =
      (scaled 10 c' k').1 * (scaled 10 c k).2 := by
    rw [scaled_value (by decide) c, scaled_value (by decide) c', Nat.cast_ofNat, h]
    ring
  exact_mod_cast hcast

theorem stripZeros_value (c : Nat) (k : Int) :
    ((stripZeros c k).1 : ℚ) * 10 ^ (stripZeros c k).2 = c * 10 ^ k := by
  induction c, k using stripZeros.induct with
  | case1 c k h ih =>
    have hc : c = c / 10 * 10 := by omega
    rw [stripZeros, dif_pos h, ih, zpow_add₀ (by norm_num), zpow_one]
    conv_rhs => rw [hc]
    push_cast
    ring
  | case2 c k h => rw [stripZeros, dif_neg h]

theorem gridScale_pos (e k : Int) : 0 < (gridScale e k).1 ∧ 0 < (gridScale e k).2 := by
  have hscale : 0 < (atScale 1 1 (2 - e)).1 ∧ 0 < (atScale 1 1 (2 - e)).2 := by
    unfold atScale
    split <;> simp
  unfold gridScale
  simp only
  split
  · exact ⟨Nat.mul_pos (Nat.pow_pos (by decide)) hscale.2, hscale.1⟩
  · exact ⟨hscale.2, Nat.mul_pos hscale.1 (Nat.pow_pos (by decide))⟩

theorem gridScale_value (e k : Int) :
    ((gridScale e k).1 : ℚ) * 2 ^ (e - 2) = (gridScale e k).2 * 10 ^ k := by
  have hquarter : ((atScale 1 1 (2 - e)).2 : ℚ) * 2 ^ (e - 2) = (atScale 1 1 (2 - e)).1 := by
    unfold atScale
    split
    · rename_i h
      simp only [Nat.pow_eq]
      push_cast
      rw [zpow_toNat h, one_mul, ← zpow_add₀ (by norm_num), sub_add_sub_cancel, sub_self, zpow_zero]
    · rename_i h
      simp only [Nat.pow_eq]
      push_cast
      rw [zpow_toNat (by omega), neg_sub]
  unfold gridScale
  simp only
  split
  · rename_i h
    simp only [Nat.pow_eq]
    push_cast
    rw [zpow_toNat h, mul_assoc, hquarter, mul_comm]
  · rename_i h
    simp only [Nat.pow_eq]
    push_cast
    rw [zpow_toNat (by omega), hquarter, mul_assoc, ← zpow_add₀ (by norm_num), neg_add_cancel,
      zpow_zero, mul_one]

end

section
variable {x : Double} {c a b : Nat} {k : Int}

theorem two_pow_place (x : Double) : (2 ^ x.place : ℚ) = 4 * one * 2 ^ (x.exponent - 2) := by
  have hone : (one : ℚ) = 2 ^ 1074 := by
    rw [one_eq, Nat.cast_pow, Nat.cast_ofNat]
  have hfour : (4 : ℚ) = 2 ^ (2 : Int) := by norm_num
  rw [hone, hfour, ← zpow_natCast, ← zpow_natCast, ← zpow_add₀ (by norm_num),
    ← zpow_add₀ (by norm_num), x.exponent_eq]
  congr 1
  push_cast
  ring

theorem gridScale_cross (x : Double) (c : Nat) (k : Int) :
    c * (gridScale x.exponent k).1 * ((scaled 10 c k).2 * 2 ^ x.place) =
      4 * ((scaled 10 c k).1 * one) * (gridScale x.exponent k).2 := by
  have hcast : (c : ℚ) * (gridScale x.exponent k).1 * ((scaled 10 c k).2 * 2 ^ x.place) =
      4 * ((scaled 10 c k).1 * one) * (gridScale x.exponent k).2 := by
    rw [two_pow_place, scaled_value (by decide), Nat.cast_ofNat]
    linear_combination (4 * c * (scaled 10 c k).2 * one : ℚ) * gridScale_value x.exponent k
  exact_mod_cast hcast

theorem mul_le_iff_of_cross {u v D : Nat} (hb : 0 < b) (hD : 0 < D) (h : u * D = v * b) (y : Nat) :
    y * b ≤ u ↔ y * D ≤ v := by
  rw [← Nat.mul_le_mul_right_iff hD, h, Nat.mul_right_comm, Nat.mul_le_mul_right_iff hb]

theorem le_mul_iff_of_cross {u v D : Nat} (hb : 0 < b) (hD : 0 < D) (h : u * D = v * b) (y : Nat) :
    u ≤ y * b ↔ v ≤ y * D := by
  rw [← Nat.mul_le_mul_right_iff hD, h, Nat.mul_right_comm y, Nat.mul_le_mul_right_iff hb]

theorem within_of_readsBack
    (h : readsBack x (gridScale x.exponent k).1 (gridScale x.exponent k).2 c = true) :
    Within x (scaled 10 c k).1 (scaled 10 c k).2 := by
  have hb := (gridScale_pos x.exponent k).2
  have hD : 0 < (scaled 10 c k).2 * 2 ^ x.place :=
    Nat.mul_pos (scaled_pos (by decide) c k) (Nat.two_pow_pos _)
  have hlow := mul_le_iff_of_cross hb hD (gridScale_cross x c k) (4 * x.mantissa - x.quartersBelow)
  have hhigh := le_mul_iff_of_cross hb hD (gridScale_cross x c k) (4 * x.mantissa + 2)
  have hlow' := le_mul_iff_of_cross hb hD (gridScale_cross x c k) (4 * x.mantissa - x.quartersBelow)
  have hhigh' := mul_le_iff_of_cross hb hD (gridScale_cross x c k) (4 * x.mantissa + 2)
  rw [readsBack] at h
  split at h
  · rename_i heven
    obtain ⟨h1, h2⟩ := Bool.and_eq_true_iff.1 h
    exact ⟨hlow.1 (of_decide_eq_true h1), hhigh.1 (of_decide_eq_true h2), by omega⟩
  · obtain ⟨h1, h2⟩ := Bool.and_eq_true_iff.1 h
    have h1' := lt_of_not_ge (mt hlow'.2 (not_le_of_gt (of_decide_eq_true h1)))
    have h2' := lt_of_not_ge (mt hhigh'.2 (not_le_of_gt (of_decide_eq_true h2)))
    exact ⟨h1'.le, h2'.le, fun _ => ⟨h1', h2'⟩⟩

theorem readsBack_of_pick? (h : pick? x a b = some c) : readsBack x a b c = true := by
  unfold pick? at h
  simp only at h
  split at h
  · cases h
  · cases h
    assumption
  · cases h
    assumption
  · rename_i hbelow habove
    cases h
    split
    · exact hbelow
    · exact habove

theorem quartersBelow_lt (hm : x.mantissa ≠ 0) : x.quartersBelow < 4 * x.mantissa := by
  unfold quartersBelow
  split <;> omega

theorem readsBack_of_lt (hm : x.mantissa ≠ 0)
    (hlow : 4 * x.mantissa * b < c * a + x.quartersBelow * b)
    (hhigh : c * a < 4 * x.mantissa * b + 2 * b) : readsBack x a b c = true := by
  have hlow' : (4 * x.mantissa - x.quartersBelow) * b < c * a := by
    have := Nat.mul_le_mul_right b (quartersBelow_lt hm).le
    rw [Nat.sub_mul]
    omega
  have hhigh' : c * a < (4 * x.mantissa + 2) * b := by rwa [Nat.add_mul]
  rw [readsBack]
  split
  · exact Bool.and_eq_true_iff.2 ⟨decide_eq_true hlow'.le, decide_eq_true hhigh'.le⟩
  · exact Bool.and_eq_true_iff.2 ⟨decide_eq_true hlow', decide_eq_true hhigh'⟩

/-- A grid with a step of less than the interval of the double has a decimal in it. -/
theorem exists_pick? (hm : x.mantissa ≠ 0) (ha : 0 < a) (hb : 0 < b)
    (hstep : a < (2 + x.quartersBelow) * b) : ∃ c, pick? x a b = some c := by
  have hvalue := Nat.div_add_mod' (4 * x.mantissa * b) a
  have hmod := Nat.mod_lt (4 * x.mantissa * b) ha
  rw [Nat.add_mul] at hstep
  -- One of the two neighbours is nearer than the end of the interval on its side.
  have hside : readsBack x a b (4 * x.mantissa * b / a) = true ∨
      readsBack x a b (4 * x.mantissa * b / a + 1) = true := by
    obtain hnear | hfar := Nat.lt_or_ge (4 * x.mantissa * b % a) (x.quartersBelow * b)
    · exact .inl (readsBack_of_lt hm (by omega) (by omega))
    · refine .inr (readsBack_of_lt hm ?_ ?_)
      · rw [Nat.add_mul, Nat.one_mul]
        omega
      · rw [Nat.add_mul, Nat.one_mul]
        omega
  unfold pick?
  simp only
  split
  · rename_i h1 h2
    simp [h1, h2] at hside
  · exact ⟨_, rfl⟩
  · exact ⟨_, rfl⟩
  · exact ⟨_, rfl⟩

end

section
variable {n d : Nat}

theorem lt_pow_length (n : Nat) : n < 10 ^ (Nat.toDigits 10 n).length :=
  (Nat.length_toDigits_le_iff (by decide) Nat.length_toDigits_pos).1 le_rfl

theorem pow_length_le (hn : 0 < n) : 10 ^ ((Nat.toDigits 10 n).length - 1) ≤ n := by
  obtain hone | hmore := ((Nat.toDigits 10 n).length - 1).eq_zero_or_pos
  · rw [hone]
    exact hn
  · refine not_lt.1 fun hlt => ?_
    have := (Nat.length_toDigits_le_iff (by decide) hmore).2 hlt
    omega

theorem leadingPower_le (hn : 0 < n) : (10 : ℚ) ^ leadingPower n d * d ≤ n := by
  have hlow : (10 : ℚ) ^ ((Nat.toDigits 10 n).length - 1 : Int) ≤ n := by
    have hpos : 0 < (Nat.toDigits 10 n).length := Nat.length_toDigits_pos
    rw [← Nat.cast_pred hpos, zpow_natCast]
    exact_mod_cast pow_length_le hn
  have hhigh : (d : ℚ) < 10 ^ ((Nat.toDigits 10 d).length : Int) := by
    exact_mod_cast lt_pow_length d
  unfold leadingPower
  simp only
  generalize ((Nat.toDigits 10 n).length : Int) = i at *
  generalize ((Nat.toDigits 10 d).length : Int) = j at *
  have hbelow : (10 : ℚ) ^ (i - j - 1) * d ≤ n := by
    calc (10 : ℚ) ^ (i - j - 1) * d
      _ ≤ 10 ^ (i - j - 1) * 10 ^ j := by gcongr
      _ = 10 ^ (i - 1) := by
        rw [← zpow_add₀ (by norm_num)]
        congr 1
        ring
      _ ≤ n := hlow
  split
  · rename_i h
    split
    · rename_i hle
      rw [← zpow_toNat h, mul_comm]
      exact_mod_cast hle
    · exact hbelow
  · rename_i h
    split
    · rename_i hle
      have hcast : (d : ℚ) ≤ n * 10 ^ (-(i - j)) := by
        rw [← zpow_toNat (by omega)]
        exact_mod_cast hle
      rwa [zpow_neg, ← div_eq_mul_inv, le_div_iff₀ (by positivity), mul_comm] at hcast
    · exact hbelow

end

section
variable {x : Double}

theorem leadingPower_value (hm : x.mantissa ≠ 0) :
    (10 : ℚ) ^ leadingPower x.fraction.1 x.fraction.2 ≤ x.size := by
  have hd : 0 < x.fraction.2 := by
    rw [fraction_eq]
    exact scaled_pos (by decide) x.mantissa x.exponent
  have hvalue : (x.fraction.1 : ℚ) = x.size * x.fraction.2 := by
    rw [fraction_eq]
    exact scaled_value (by decide) x.mantissa x.exponent
  have hn : 0 < x.fraction.1 := by
    have hcast : (0 : ℚ) < x.fraction.1 := by
      rw [hvalue, size]
      positivity
    exact_mod_cast hcast
  have hle := leadingPower_le (d := x.fraction.2) hn
  rw [hvalue] at hle
  exact le_of_mul_le_mul_right hle (by exact_mod_cast hd)

/-- Of the seventeen grids from the leading power down, the last has a decimal that reads back. -/
theorem exists_onGrid? (hm : x.mantissa ≠ 0) : ∃ c, onGrid? x.mantissa x.exponent
    (leadingPower x.fraction.1 x.fraction.2 - 16) = some c := by
  have hpower := leadingPower_value hm
  have hscale := gridScale_value x.exponent (leadingPower x.fraction.1 x.fraction.2 - 16)
  obtain ⟨ha, hb⟩ := gridScale_pos x.exponent (leadingPower x.fraction.1 x.fraction.2 - 16)
  rw [onGrid?_eq]
  generalize (gridScale x.exponent (leadingPower x.fraction.1 x.fraction.2 - 16)).1 = a at *
  generalize (gridScale x.exponent (leadingPower x.fraction.1 x.fraction.2 - 16)).2 = b at *
  have hstep : a * 10 ^ 16 ≤ 4 * x.mantissa * b := by
    have hcast : (a * 10 ^ 16 : ℚ) * 2 ^ (x.exponent - 2) ≤
        4 * x.mantissa * b * 2 ^ (x.exponent - 2) := by
      calc (a * 10 ^ 16 : ℚ) * 2 ^ (x.exponent - 2)
        _ = b * 10 ^ leadingPower x.fraction.1 x.fraction.2 := by
          rw [mul_right_comm, hscale, zpow_sub₀ (by norm_num), mul_assoc, zpow_ofNat,
            div_mul_cancel₀ _ (by norm_num)]
        _ ≤ b * x.size := by gcongr
        _ = 4 * x.mantissa * b * 2 ^ (x.exponent - 2) := by
          rw [size, zpow_sub₀ (by norm_num), zpow_ofNat]
          ring
    exact_mod_cast le_of_mul_le_mul_right hcast (by positivity)
  have hlt : x.mantissa < 2 ^ 53 := x.mantissa_lt
  refine exists_pick? hm ha hb ?_
  unfold quartersBelow
  split
  · rename_i h
    rw [h.1] at hstep
    norm_num at hstep ⊢
    omega
  · have hprod := Nat.mul_lt_mul_of_pos_right hlt hb
    rw [Nat.mul_assoc] at hstep
    norm_num at hstep hprod ⊢
    omega

/-- The shortest decimal is one that a grid has, without the zeros at its end. -/
theorem exists_shortest (hm : x.mantissa ≠ 0) : ∃ c k,
    onGrid? x.mantissa x.exponent k = some c ∧ x.shortest = stripZeros c k := by
  unfold shortest
  simp only
  split
  · rename_i c k h
    obtain ⟨k', -, hk'⟩ := List.exists_of_findSome?_eq_some h
    obtain ⟨c', hc', heq⟩ := Option.map_eq_some_iff.1 hk'
    cases heq
    exact ⟨c, k, hc', rfl⟩
  · rename_i h
    obtain ⟨c, hc⟩ := exists_onGrid? hm
    have hnone := List.findSome?_eq_none_iff.1 h _
      (List.mem_map.2 ⟨16, List.mem_range.2 (by decide), rfl⟩)
    simp [hc] at hnone

theorem Within.pos {n d : Nat} (hm : x.mantissa ≠ 0) (hd : 0 < d) (h : Within x n d) : 0 < n := by
  refine Nat.pos_of_ne_zero fun h0 => ?_
  have hlow := h.low
  rw [h0, Nat.zero_mul, Nat.mul_zero] at hlow
  have hpos := Nat.mul_pos (Nat.sub_pos_of_lt (quartersBelow_lt hm))
    (Nat.mul_pos hd (Nat.two_pow_pos x.place))
  omega

/-- The shortest decimal of a double reads back as the double. -/
theorem ofDecimal?_shortest (hm : x.mantissa ≠ 0) :
    ofDecimal? x.negative x.shortest.1 x.shortest.2 = some x := by
  obtain ⟨c, k, hc, hshortest⟩ := exists_shortest hm
  rw [onGrid?_eq] at hc
  have hwithin := within_of_readsBack (readsBack_of_pick? hc)
  rw [hshortest, ofDecimal?_congr (stripZeros_value c k), ofDecimal?_eq]
  have hd : 0 < (scaled 10 c k).2 := scaled_pos (by decide) c k
  exact hwithin.nearest? (hwithin.pos hm hd) hd

end

end EntityQuery.Double
