import Mathlib
/-! Stable orders of a list: there is one, whose parts, multiples and merges are stable, too. -/
namespace EntityQuery.StableSort
variable {α β : Type} {precedes : α → α → Bool} {xs ys zs : List α}

/-- The order puts items in ranks, of which one comes before another. -/
structure Ranked (precedes : α → α → Bool) : Prop where
  asymm : ∀ {a b}, precedes a b = true → precedes b a = false
  trans : ∀ {a b c}, precedes b a = false → precedes c b = false → precedes c a = false

def tied (precedes : α → α → Bool) (a b : α) : Bool := !precedes a b && !precedes b a

namespace Ranked

theorem irrefl (h : Ranked precedes) (a : α) : precedes a a = false := by
  cases ha : precedes a a with
  | false => rfl
  | true => exact ha.symm.trans (h.asymm ha)

theorem tied_self (h : Ranked precedes) (a : α) : tied precedes a a = true := by
  simp [tied, h.irrefl]

theorem of_tied (h : Ranked precedes) {a b c : α} (hb : tied precedes a b = true)
    (hc : tied precedes a c = true) : precedes c b = false := by
  simp only [tied, Bool.and_eq_true, Bool.not_eq_true'] at hb hc
  exact h.trans hb.1 hc.2

theorem flip (h : Ranked precedes) : Ranked fun x y => precedes y x :=
  ⟨fun hba => h.asymm hba, fun hab hbc => h.trans hbc hab⟩

theorem precedes_of_left (h : Ranked precedes) {a b c : α} (hab : precedes a b = true)
    (hbc : precedes c b = false) : precedes a c = true := by
  by_contra hac
  rw [h.trans hbc (by simpa using hac)] at hab
  cases hab

theorem precedes_of_right (h : Ranked precedes) {a b c : α} (hab : precedes b a = false)
    (hbc : precedes b c = true) : precedes a c = true := by
  by_contra hac
  rw [h.trans (by simpa using hac) hab] at hbc
  cases hbc

theorem strict_trans (h : Ranked precedes) {a b c : α} (hab : precedes a b = true)
    (hbc : precedes b c = true) : precedes a c = true :=
  h.precedes_of_left hab (h.asymm hbc)

end Ranked

/-- `ys` are the items of `xs` in order, where tied items stay in the order of `xs`. -/
structure Stable (precedes : α → α → Bool) (xs ys : List α) : Prop where
  sorted : ys.Pairwise fun a b => precedes b a = false
  ties : ∀ a, ys.filter (tied precedes a) = xs.filter (tied precedes a)

theorem filter_product (f : α → Bool) (xs : List α) (vs : List β) :
    (xs ×ˢ vs).filter (fun p => f p.1) = xs.filter f ×ˢ vs := by
  induction xs with
  | nil => rfl
  | cons x xs ih =>
    rw [List.product_cons, List.filter_append, ih, List.filter_cons]
    cases hx : f x <;> simp [List.product_cons, List.filter_map, Function.comp_def, hx]

namespace Stable

theorem not_precedes_head (h : Ranked precedes) {y z : α}
    (hties : ∀ a, (y :: ys).filter (tied precedes a) = (z :: zs).filter (tied precedes a))
    (hzs : ∀ x ∈ zs, precedes x z = false) : precedes y z = false := by
  have hmem : y ∈ (z :: zs).filter (tied precedes y) := by
    rw [← hties y]
    exact List.mem_filter.2 ⟨.head _, h.tied_self y⟩
  obtain rfl | hmem := List.mem_cons.1 (List.mem_filter.1 hmem).1
  · exact h.irrefl y
  · exact hzs y hmem

/-- Two lists in order that agree on tied items are the same: their heads are tied, so they are the
first of the same items. -/
theorem eq (h : Ranked precedes) (hy : Stable precedes xs ys) (hz : Stable precedes xs zs) :
    ys = zs := by
  have hties : ∀ a, ys.filter (tied precedes a) = zs.filter (tied precedes a) :=
    fun a => (hy.ties a).trans (hz.ties a).symm
  have hsorted := hy.sorted
  have hsorted' := hz.sorted
  clear hy hz
  induction ys generalizing zs with
  | nil =>
    cases zs with
    | nil => rfl
    | cons z zs => simpa [h.tied_self] using hties z
  | cons y ys ih =>
    cases zs with
    | nil => simpa [h.tied_self] using hties y
    | cons z zs =>
      obtain ⟨hys, htail⟩ := List.pairwise_cons.1 hsorted
      obtain ⟨hzs, htail'⟩ := List.pairwise_cons.1 hsorted'
      have hyz := not_precedes_head h hties hzs
      have hzy := not_precedes_head h (fun a => (hties a).symm) hys
      have hheads := hties y
      rw [List.filter_cons_of_pos (h.tied_self y),
        List.filter_cons_of_pos (by simp [tied, hyz, hzy])] at hheads
      obtain rfl : y = z := (List.cons.inj hheads).1
      refine congrArg (y :: ·) (ih (fun a => ?_) htail htail')
      have ha := hties a
      rw [List.filter_cons, List.filter_cons] at ha
      split at ha
      · exact (List.cons.inj ha).2
      · exact ha

theorem filter (h : Stable precedes xs ys) (f : α → Bool) :
    Stable precedes (xs.filter f) (ys.filter f) := by
  refine ⟨h.sorted.filter f, fun a => ?_⟩
  rw [List.filter_comm, h.ties, List.filter_comm]

theorem product (h : Ranked precedes) (hs : Stable precedes xs ys) (vs : List β) :
    Stable (fun p q => precedes p.1 q.1) (xs ×ˢ vs) (ys ×ˢ vs) := by
  refine ⟨List.pairwise_flatMap.2 ⟨fun y _ => ?_, ?_⟩, fun a => ?_⟩
  · exact List.pairwise_map.2 (List.pairwise_of_forall fun _ _ => h.irrefl y)
  · refine hs.sorted.imp fun {x y} hxy p hp q hq => ?_
    obtain ⟨v, -, rfl⟩ := List.mem_map.1 hp
    obtain ⟨w, -, rfl⟩ := List.mem_map.1 hq
    exact hxy
  · have htied : tied (fun p q : α × β => precedes p.1 q.1) a = fun p => tied precedes a.1 p.1 :=
      rfl
    rw [htied, filter_product, filter_product, hs.ties]

theorem reverse (h : Stable precedes xs ys) :
    Stable (fun x y => precedes y x) xs.reverse ys.reverse := by
  refine ⟨List.pairwise_reverse.2 h.sorted, fun a => ?_⟩
  have htied : tied (fun x y => precedes y x) a = tied precedes a :=
    funext fun b => Bool.and_comm _ _
  rw [htied, List.filter_reverse, List.filter_reverse, h.ties]

theorem of_sorted (h : xs.Pairwise fun a b => precedes b a = false) : Stable precedes xs xs :=
  ⟨h, fun _ => rfl⟩

/-- Items that come before others can be brought to the front and put in order on their own. -/
theorem parted (h : Ranked precedes) {f : α → Bool}
    (hf : ∀ x y, f x = true → f y = false → precedes x y = true)
    (hy : Stable precedes (xs.filter f) ys) (hz : Stable precedes (xs.filter (!f ·)) zs)
    (hmem : ∀ y ∈ ys, y ∈ xs.filter f) (hmem' : ∀ z ∈ zs, z ∈ xs.filter (!f ·)) :
    Stable precedes xs (ys ++ zs) := by
  refine ⟨List.pairwise_append.2 ⟨hy.sorted, hz.sorted, fun y hy z hz => ?_⟩, fun a => ?_⟩
  · have hfy := (List.mem_filter.1 (hmem y hy)).2
    have hfz := (List.mem_filter.1 (hmem' z hz)).2
    exact h.asymm (hf y z hfy (by simpa using hfz))
  · -- Items that are tied stay together.
    have hsame : ∀ x, tied precedes a x = true → f x = f a := by
      intro x hx
      simp only [tied, Bool.and_eq_true, Bool.not_eq_true'] at hx
      cases hfx : f x <;> cases hfa : f a
      · rfl
      · rw [hf a x hfa hfx] at hx
        cases hx.1
      · rw [hf x a hfx hfa] at hx
        cases hx.2
      · rfl
    have hkeep (g : α → Bool) (hg : ∀ x, tied precedes a x = true → g x = g a) :
        (xs.filter g).filter (tied precedes a) =
          if g a then xs.filter (tied precedes a) else [] := by
      rw [List.filter_filter]
      split
      · rename_i hga
        refine List.filter_congr fun x _ => ?_
        cases hx : tied precedes a x with
        | false => rfl
        | true => rw [hg x hx, hga, Bool.and_self]
      · rename_i hga
        refine List.filter_eq_nil_iff.2 fun x _ hx => hga ?_
        rw [Bool.and_eq_true] at hx
        rw [← hg x hx.1, hx.2]
    rw [List.filter_append, hy.ties, hz.ties, hkeep f hsame,
      hkeep (!f ·) fun x hx => congrArg _ (hsame x hx)]
    cases f a <;> simp

theorem merge (h : Ranked precedes) (hx : xs.Pairwise fun a b => precedes b a = false)
    (hy : ys.Pairwise fun a b => precedes b a = false) :
    Stable precedes (xs ++ ys) (xs.merge ys fun x y => !precedes y x) := by
  have htotal : ∀ a b, ((!precedes b a) || (!precedes a b)) = true := by
    intro a b
    cases hab : precedes a b with
    | false => simp
    | true => simp [h.asymm hab]
  have hsorted : (xs.merge ys fun x y => !precedes y x).Pairwise fun a b => !precedes b a :=
    List.pairwise_merge (by simpa using fun a b c => h.trans) htotal xs ys (by simpa using hx)
      (by simpa using hy)
  refine ⟨by simpa using hsorted, fun a => ?_⟩
  clear hsorted
  fun_induction List.merge xs ys (fun x y => !precedes y x) with
  | case1 ys => rfl
  | case2 xs => rw [List.append_nil]
  | case3 x xs y ys hle ih =>
    rw [List.cons_append, List.filter_cons, List.filter_cons, ih (List.pairwise_cons.1 hx).2 hy]
  | case4 x xs y ys hle ih =>
    have hyx : precedes y x = true := by simpa using hle
    rw [List.filter_cons, ih hx (List.pairwise_cons.1 hy).2, List.filter_append,
      List.filter_append (_ :: _), List.filter_cons (x := y)]
    split
    · -- Nothing in the first list is tied with an item that precedes its head.
      rename_i hay
      have hnone : (x :: xs).filter (tied precedes a) = [] := by
        refine List.filter_eq_nil_iff.2 fun z hz haz => ?_
        have hxz : precedes z x = false := by
          obtain rfl | hz := List.mem_cons.1 hz
          · exact h.irrefl z
          · exact (List.pairwise_cons.1 hx).1 z hz
        exact absurd (h.precedes_of_left hyx hxz) (by simp [h.of_tied haz hay])
      rw [hnone, List.nil_append, List.nil_append]
    · rfl

theorem pairwise {r : α → α → Prop} (h : Ranked precedes) (hs : Stable precedes xs ys)
    (hr : xs.Pairwise r) :
    ys.Pairwise fun a b => precedes a b = true ∨ tied precedes a b = true ∧ r a b := by
  refine List.pairwise_iff_forall_sublist.2 fun {a b} hab => ?_
  have hba := List.pairwise_iff_forall_sublist.1 hs.sorted hab
  cases hlt : precedes a b with
  | true => exact .inl rfl
  | false =>
    -- Both are tied with the first one, and such items are in the order in which they came.
    have htied : tied precedes a b = true := by simp [tied, hlt, hba]
    have hties := hab.filter (tied precedes a)
    rw [hs.ties, List.filter_cons_of_pos (h.tied_self a), List.filter_cons_of_pos htied] at hties
    exact .inr ⟨htied, List.pairwise_iff_forall_sublist.1 hr (hties.trans List.filter_sublist)⟩

end Stable

end EntityQuery.StableSort
