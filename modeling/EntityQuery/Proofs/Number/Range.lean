import EntityQuery.Proofs.Number.Nearest
/-! Numbers of 64 bits. Each has a nearest double, and two of them compare exactly when both are signed
integers, by their nearest doubles otherwise. -/
namespace EntityQuery

namespace Number

/-- The integers of 64 bits, signed or not, and all doubles. -/
def InRange : Number → Prop
  | .integer n => -0x8000000000000000 ≤ n ∧ n < 0x10000000000000000
  | .double _ => True

/-- The numbers that compare exactly with each other. -/
def IsLongInteger : Number → Prop
  | .integer n => IsLong n
  | .double _ => False

instance : DecidablePred InRange
  | .integer _ => inferInstanceAs (Decidable (_ ∧ _))
  | .double _ => .isTrue trivial

instance : DecidablePred IsLongInteger
  | .integer n => inferInstanceAs (Decidable (IsLong n))
  | .double _ => .isFalse id

theorem exists_long {a : Number} (h : a.IsLongInteger) : ∃ n, a = .integer n ∧ IsLong n := by
  cases a with
  | integer n => exact ⟨n, rfl, h⟩
  | double d => exact h.elim

def rounded (a : Number) : Int := (a.toDouble?.map Double.units).getD 0

section
variable {a b : Number}

theorem InRange.natAbs_lt {n : Int} (h : (integer n).InRange) : n.natAbs < 2 ^ 1023 := by
  have hpow (k : Nat) (hk : 64 ≤ k) : 2 ^ 64 ≤ 2 ^ k := Nat.pow_le_pow_right (by decide) hk
  obtain ⟨hlow, hhigh⟩ := h
  exact lt_of_lt_of_le (by omega) (hpow 1023 (by decide))

theorem InRange.toDouble?_eq (ha : a.InRange) :
    ∃ d, a.toDouble? = some d ∧ a.rounded = d.units := by
  obtain ⟨d, hd⟩ : ∃ d, a.toDouble? = some d := by
    cases a with
    | integer n =>
      obtain ⟨d, hd, -⟩ := Double.exists_ofInt? ha.natAbs_lt
      exact ⟨d, hd⟩
    | double d => exact ⟨d, rfl⟩
  exact ⟨d, hd, by rw [rounded, hd]; rfl⟩

theorem compare?_of_long {m n : Int} (hm : IsLong m) (hn : IsLong n) :
    (integer m).compare? (integer n) = some (compare m n) := by
  rw [compare?, if_pos ⟨hm, hn⟩]

theorem compare?_of_not_long (ha : a.InRange) (hb : b.InRange)
    (h : ¬ (a.IsLongInteger ∧ b.IsLongInteger)) :
    a.compare? b = some (compare a.rounded b.rounded) := by
  obtain ⟨d, hd, hda⟩ := ha.toDouble?_eq
  obtain ⟨e, he, heb⟩ := hb.toDouble?_eq
  have hdoubles : (do return Double.compare (← a.toDouble?) (← b.toDouble?)) =
      some (compare a.rounded b.rounded) := by
    rw [hd, he, hda, heb]
    rfl
  unfold compare?
  split
  · exact (if_neg h).trans hdoubles
  · exact hdoubles

theorem rounded_mono {m n : Int} (hm : (integer m).InRange) (hn : (integer n).InRange)
    (h : m ≤ n) : (integer m).rounded ≤ (integer n).rounded := by
  obtain rfl | hlt := h.eq_or_lt
  · rfl
  · obtain ⟨d, hd, hnearest⟩ := Double.exists_ofInt? hm.natAbs_lt
    obtain ⟨e, he, hnearest'⟩ := Double.exists_ofInt? hn.natAbs_lt
    have hone : m * Double.one < n * Double.one :=
      Int.mul_lt_mul_of_pos_right hlt (Int.natCast_pos.2 Double.one_pos)
    have hdm : (integer m).rounded = d.units := by rw [rounded, toDouble?, hd]; rfl
    have hen : (integer n).rounded = e.units := by rw [rounded, toDouble?, he]; rfl
    -- If the larger integer had the smaller double, each would be nearer to the other's.
    have hde := hnearest e
    have hed := hnearest' d
    rw [hdm, hen]
    omega

end

end Number

end EntityQuery
