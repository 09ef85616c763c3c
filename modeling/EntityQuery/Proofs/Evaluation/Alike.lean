import EntityQuery.Proofs.Evaluation.Groups
import EntityQuery.Proofs.Evaluation.Condition
/-! Values that are the same, as the two zeros are, cannot be told apart by a condition. -/
namespace EntityQuery
open Criteria

namespace Number

/-- Only the zeros are the same without being equal, and they have the same size. -/
theorem eq_or_units_eq_of_same {a b : Number} (h : a.same b = true) :
    a = b ∨ ∃ d e, a = .double d ∧ b = .double e ∧ d.units = e.units := by
  unfold same at h
  split at h
  · exact .inl (congrArg _ (eq_of_beq h))
  · exact .inr ⟨_, _, rfl, rfl, eq_of_beq h⟩
  · cases h

theorem compare?_congr {a a' b b' : Number} (ha : a.same a' = true) (hb : b.same b' = true) :
    a.compare? b = a'.compare? b' := by
  obtain rfl | ⟨d, d', rfl, rfl, hd⟩ := eq_or_units_eq_of_same ha <;>
    obtain rfl | ⟨e, e', rfl, rfl, he⟩ := eq_or_units_eq_of_same hb
  · rfl
  · simp [compare?, toDouble?, Double.compare, he]
  · simp [compare?, toDouble?, Double.compare, hd]
  · simp [compare?, toDouble?, Double.compare, hd, he]

end Number

namespace Value

theorem get?_of_sameMembers {ms ns : List (String × Value)} (h : sameMembers ms ns = true)
    (key : String) :
    Option.Rel (fun v w => v.same w = true) (Dictionary.get? key ms) (Dictionary.get? key ns) := by
  induction ms generalizing ns with
  | nil =>
    cases ns with
    | nil => exact .none
    | cons n ns => simp [sameMembers] at h
  | cons m ms ih =>
    cases ns with
    | nil => simp [sameMembers] at h
    | cons n ns =>
      obtain ⟨k, v⟩ := m
      obtain ⟨l, w⟩ := n
      simp only [sameMembers, Bool.and_eq_true, beq_iff_eq] at h
      obtain ⟨⟨rfl, hvalues⟩, hrest⟩ := h
      unfold Dictionary.get?
      split
      · exact .some hvalues
      · exact ih hrest

theorem member?_of_same {v w : Value} (h : v.same w = true) (key : String) :
    Option.Rel (fun v w => v.same w = true) (v.member? key) (w.member? key) := by
  cases matched_of_same h with
  | object hmembers => exact get?_of_sameMembers hmembers key
  | _ => exact .none

theorem isNull_of_same {v w : Value} (h : v.same w = true) : v.isNull = w.isNull := by
  cases matched_of_same h <;> rfl

end Value

namespace Evaluation

theorem descend_of_same {v w : Value} (h : v.same w = true) (keys : List String) :
    (descend v keys).same (descend w keys) = true := by
  induction keys generalizing v w with
  | nil => exact h
  | cons key rest ih =>
    have hmember := Value.member?_of_same h key
    rw [descend, descend]
    generalize v.member? key = v' at hmember
    generalize w.member? key = w' at hmember
    cases hmember with
    | none => rfl
    | some hvalues => exact ih hvalues

theorem order?_congr {v v' w w' : Value} (hv : v.same v' = true) (hw : w.same w' = true) :
    order? v w = order? v' w' := by
  cases Value.matched_of_same hv with
  | number ha =>
    cases Value.matched_of_same hw with
    | number hb => exact Number.compare?_congr ha hb
    | _ => rfl
  | string s => cases Value.matched_of_same hw <;> rfl
  | _ => rfl

theorem holds_congr {v v' w w' : Value} (hv : v.same v' = true) (hw : w.same w' = true)
    (op : Comparison) : holds op v w = holds op v' w' := by
  have hsame : v.same w = v'.same w' := by
    rw [Bool.eq_iff_iff]
    constructor
    · intro h
      exact Value.same_trans (Value.same_trans (by rwa [Value.same_comm]) h) hw
    · intro h
      exact Value.same_trans (Value.same_trans hv h) (by rwa [Value.same_comm])
  unfold holds
  rw [Value.isNull_of_same hv, Value.isNull_of_same hw, hsame, order?_congr hv hw]

theorem likeValue_congr {v v' w w' : Value} (hv : v.same v' = true) (hw : w.same w' = true) :
    likeValue v w = likeValue v' w' := by
  cases Value.matched_of_same hv with
  | string s => cases Value.matched_of_same hw <;> rfl
  | _ => rfl

inductive Alike : Except SessionError Value → Except SessionError Value → Prop
  | ok {v w : Value} (h : v.same w = true) : Alike (.ok v) (.ok w)
  | error (e : SessionError) : Alike (.error e) (.error e)

theorem Alike.refl (x : Except SessionError Value) : Alike x x := by
  cases x with
  | ok v => exact .ok v.same_self
  | error e => exact .error e

section
variable {b b' : Bindings} {c c' : Combination}

/-- Operations on values agree on operands that are alike when they do on values that are the
same. -/
theorem Alike.bind {γ : Type} {x y : Except SessionError Value} (h : Alike x y)
    {f g : Value → Except SessionError γ} (hfg : ∀ {v w}, v.same w = true → f v = g w) :
    (x >>= f) = (y >>= g) := by
  cases h with
  | ok h => exact hfg h
  | error e => rfl

mutual

/-- A condition cannot tell combinations apart on which its operands are alike. -/
theorem satisfies_congr {p : Predicate}
    (h : ∀ e ∈ p.expressions, Alike (resolve b c e) (resolve b' c' e)) :
    satisfies b c p = satisfies b' c' p := by
  match p with
  | .comparison op l r =>
    have hl := h l (by simp [Predicate.expressions])
    have hr := h r (by simp [Predicate.expressions])
    rw [satisfies, satisfies]
    exact hl.bind fun hv => hr.bind fun hw => congrArg Except.ok (holds_congr hv hw op)
  | .like e pattern =>
    have he := h e (by simp [Predicate.expressions])
    have hpattern := h pattern (by simp [Predicate.expressions])
    rw [satisfies, satisfies]
    exact he.bind fun hv => hpattern.bind fun hw => likeValue_congr hv hw
  | .isNull e =>
    rw [satisfies, satisfies]
    exact (h e (by simp [Predicate.expressions])).bind fun hv =>
      congrArg Except.ok (Value.isNull_of_same hv)
  | .isNotNull e =>
    rw [satisfies, satisfies]
    exact (h e (by simp [Predicate.expressions])).bind fun hv =>
      congrArg (fun x => Except.ok !x) (Value.isNull_of_same hv)
  | .and items =>
    rw [satisfies, satisfies]
    exact satisfiesAll_congr h
  | .or items =>
    rw [satisfies, satisfies]
    exact satisfiesAny_congr h
  | .not p => rw [satisfies, satisfies, satisfies_congr (p := p) h]

theorem satisfiesAll_congr {ps : List Predicate}
    (h : ∀ e ∈ Predicate.expressionsOf ps, Alike (resolve b c e) (resolve b' c' e)) :
    satisfiesAll b c ps = satisfiesAll b' c' ps := by
  match ps with
  | [] => rfl
  | p :: rest =>
    rw [Predicate.expressionsOf] at h
    rw [satisfiesAll, satisfiesAll, satisfies_congr fun e he => h e (List.mem_append_left _ he),
      satisfiesAll_congr fun e he => h e (List.mem_append_right _ he)]

theorem satisfiesAny_congr {ps : List Predicate}
    (h : ∀ e ∈ Predicate.expressionsOf ps, Alike (resolve b c e) (resolve b' c' e)) :
    satisfiesAny b c ps = satisfiesAny b' c' ps := by
  match ps with
  | [] => rfl
  | p :: rest =>
    rw [Predicate.expressionsOf] at h
    rw [satisfiesAny, satisfiesAny, satisfies_congr fun e he => h e (List.mem_append_left _ he),
      satisfiesAny_congr fun e he => h e (List.mem_append_right _ he)]

end

end

end Evaluation

end EntityQuery
