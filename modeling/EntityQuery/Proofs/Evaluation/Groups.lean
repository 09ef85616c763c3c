import Mathlib
import EntityQuery.Evaluation.Arrange
import EntityQuery.Json.Value
/-! Groups of items with the same key: each item is in one of them. -/
namespace EntityQuery

namespace Value

mutual

theorem same_self (v : Value) : v.same v = true := by
  match v with
  | .null | .bool _ | .number _ | .string _ => simp [same]
  | .array items =>
    rw [same]
    exact sameItems_self items
  | .object members =>
    rw [same]
    exact sameMembers_self members

theorem sameItems_self (vs : List Value) : sameItems vs vs = true := by
  match vs with
  | [] => rfl
  | v :: vs => rw [sameItems, same_self v, sameItems_self vs, Bool.and_self]

theorem sameMembers_self (ms : List (String × Value)) : sameMembers ms ms = true := by
  match ms with
  | [] => rfl
  | (k, v) :: ms =>
    rw [sameMembers, BEq.rfl, same_self v, sameMembers_self ms, Bool.and_self, Bool.and_self]

end

mutual

theorem same_comm (v w : Value) : v.same w = w.same v := by
  match v with
  | .null => cases w <;> rfl
  | .bool a =>
    cases w with
    | bool b => simp only [same, BEq.comm]
    | _ => rfl
  | .number a =>
    cases w with
    | number b => simp only [same, Number.same_comm a b]
    | _ => rfl
  | .string a =>
    cases w with
    | string b => simp only [same, BEq.comm]
    | _ => rfl
  | .array a =>
    cases w with
    | array b =>
      rw [same, same]
      exact sameItems_comm a b
    | _ => rfl
  | .object a =>
    cases w with
    | object b =>
      rw [same, same]
      exact sameMembers_comm a b
    | _ => rfl

theorem sameItems_comm (vs ws : List Value) : sameItems vs ws = sameItems ws vs := by
  match vs, ws with
  | [], [] => rfl
  | v :: vs, w :: ws => rw [sameItems, sameItems, same_comm v w, sameItems_comm vs ws]
  | [], _ :: _ | _ :: _, [] => rfl

theorem sameMembers_comm (vs ws : List (String × Value)) :
    sameMembers vs ws = sameMembers ws vs := by
  match vs, ws with
  | [], [] => rfl
  | (k, v) :: vs, (l, w) :: ws =>
    rw [sameMembers, sameMembers, same_comm v w, sameMembers_comm vs ws, BEq.comm]
  | [], _ :: _ | _ :: _, [] => rfl

end

theorem sameItems_eq_beq (vs ws : List Value) : sameItems vs ws = (vs == ws) := by
  induction vs generalizing ws with
  | nil => cases ws <;> rfl
  | cons v vs ih =>
    cases ws with
    | nil => rfl
    | cons w ws =>
      rw [sameItems, ih]
      rfl

theorem number_same_trans {a b c : Number} (h : a.same b = true) (h' : b.same c = true) :
    a.same c = true := by
  cases a <;> cases b <;> cases c <;> simp_all [Number.same]

inductive Matched : Value → Value → Prop
  | null : Matched .null .null
  | bool (a : Bool) : Matched (.bool a) (.bool a)
  | number {a b : Number} (h : a.same b = true) : Matched (.number a) (.number b)
  | string (a : String) : Matched (.string a) (.string a)
  | array {a b : List Value} (h : sameItems a b = true) : Matched (.array a) (.array b)
  | object {a b : List (String × Value)} (h : sameMembers a b = true) :
      Matched (.object a) (.object b)

theorem matched_of_same {v w : Value} (h : v.same w = true) : Matched v w := by
  unfold same at h
  split at h
  · exact .null
  · rw [eq_of_beq h]
    exact .bool _
  · exact .number h
  · rw [eq_of_beq h]
    exact .string _
  · exact .array h
  · exact .object h
  · cases h

mutual

theorem same_trans {u v w : Value} (h : u.same v = true) (h' : v.same w = true) :
    u.same w = true := by
  match u with
  | .null | .bool _ | .string _ =>
    cases matched_of_same h
    exact h'
  | .number a =>
    cases matched_of_same h with
    | number hab =>
      cases matched_of_same h' with
      | number hbc =>
        rw [same]
        exact number_same_trans hab hbc
  | .array a =>
    cases matched_of_same h with
    | array hab =>
      cases matched_of_same h' with
      | array hbc =>
        rw [same]
        exact sameItems_trans hab hbc
  | .object a =>
    cases matched_of_same h with
    | object hab =>
      cases matched_of_same h' with
      | object hbc =>
        rw [same]
        exact sameMembers_trans hab hbc

theorem sameItems_trans {us vs ws : List Value} (h : sameItems us vs = true)
    (h' : sameItems vs ws = true) : sameItems us ws = true := by
  match us, vs, ws with
  | [], [], _ => exact h'
  | u :: us, v :: vs, w :: ws =>
    rw [sameItems, Bool.and_eq_true] at h h' ⊢
    exact ⟨same_trans h.1 h'.1, sameItems_trans h.2 h'.2⟩
  | [], _ :: _, _ | _ :: _, [], _ => cases h
  | _ :: _, _ :: _, [] => cases h'

theorem sameMembers_trans {us vs ws : List (String × Value)} (h : sameMembers us vs = true)
    (h' : sameMembers vs ws = true) : sameMembers us ws = true := by
  match us, vs, ws with
  | [], [], _ => exact h'
  | (j, u) :: us, (k, v) :: vs, (l, w) :: ws =>
    rw [sameMembers, Bool.and_eq_true, Bool.and_eq_true, beq_iff_eq] at h h' ⊢
    exact ⟨⟨h.1.1.trans h'.1.1, same_trans h.1.2 h'.1.2⟩, sameMembers_trans h.2 h'.2⟩
  | [], _ :: _, _ | _ :: _, [], _ => cases h
  | _ :: _, _ :: _, [] => cases h'

end

end Value

namespace Evaluation
variable {α β : Type} {same : β → β → Bool}

theorem firsts_pairwise (seen xs : List β) :
    (firsts same seen xs).Pairwise (fun a b => same a b = false) ∧
      ∀ a ∈ seen, ∀ b ∈ firsts same seen xs, same a b = false := by
  induction xs generalizing seen with
  | nil => simp [firsts]
  | cons x rest ih =>
    rw [firsts]
    split
    · exact ih seen
    · rename_i hx
      obtain ⟨hpairwise, hseen⟩ := ih (x :: seen)
      refine ⟨List.pairwise_cons.2 ⟨fun b hb => hseen x (.head _) b hb, hpairwise⟩, ?_⟩
      intro a ha b hb
      obtain rfl | hb := List.mem_cons.1 hb
      · simpa using fun hs => hx (List.any_eq_true.2 ⟨a, ha, hs⟩)
      · exact hseen a (.tail _ ha) b hb

theorem exists_same_firsts (hself : ∀ a, same a a = true) (seen xs : List β) :
    ∀ x ∈ xs, ∃ a ∈ seen ++ firsts same seen xs, same a x = true := by
  induction xs generalizing seen with
  | nil => simp
  | cons y rest ih =>
    intro x hx
    rw [firsts]
    split
    · rename_i hy
      obtain rfl | hx := List.mem_cons.1 hx
      · obtain ⟨a, ha, hs⟩ := List.any_eq_true.1 hy
        exact ⟨a, List.mem_append_left _ ha, hs⟩
      · exact ih seen x hx
    · obtain rfl | hx := List.mem_cons.1 hx
      · exact ⟨x, by simp, hself x⟩
      · obtain ⟨a, ha, hs⟩ := ih (y :: seen) x hx
        exact ⟨a, by simpa [or_left_comm] using ha, hs⟩

theorem firsts_sublist (seen xs : List β) : (firsts same seen xs).Sublist xs := by
  induction xs generalizing seen with
  | nil => exact .refl _
  | cons x rest ih =>
    rw [firsts]
    split
    · exact (ih seen).cons x
    · exact (ih _).cons_cons x

theorem firsts_flatMap_replicate (hself : ∀ a, same a a = true) {n : Nat} (hn : 0 < n)
    (seen xs : List β) :
    firsts same seen (xs.flatMap (List.replicate n)) = firsts same seen xs := by
  have hrepeat (x : β) (rest : List β) (m : Nat) (seen : List β) :
      firsts same seen (List.replicate (m + 1) x ++ rest) = firsts same seen (x :: rest) := by
    induction m generalizing seen with
    | zero => rfl
    | succ m ih =>
      rw [List.replicate_succ, List.cons_append, firsts, firsts, ih, ih]
      split
      · rename_i hx
        rw [firsts, if_pos hx]
      · rw [firsts, if_pos (by simp [hself])]
  obtain ⟨m, rfl⟩ := Nat.exists_eq_succ_of_ne_zero hn.ne'
  induction xs generalizing seen with
  | nil => rfl
  | cons x xs ih => rw [List.flatMap_cons, hrepeat, firsts, firsts, ih, ih]

/-- One is left of all items that are the same. -/
theorem countP_firsts (hself : ∀ a, same a a = true) (hcomm : ∀ a b, same a b = same b a)
    (htrans : ∀ a b c, same a b = true → same b c = true → same a c = true) (xs : List β)
    (v : β) : (firsts same [] xs).countP (same · v) = min (xs.countP (same · v)) 1 := by
  have hone : (firsts same [] xs).countP (same · v) ≤ 1 := by
    have hapart : ((firsts same [] xs).filter (same · v)).Pairwise fun a b => same a b = false :=
      (firsts_pairwise [] xs).1.filter _
    rw [List.countP_eq_length_filter]
    match hfound : (firsts same [] xs).filter (same · v) with
    | [] | [_] => simp
    | y :: z :: rest =>
      -- Two rows left that are the same as `v` would be the same as each other.
      have hmem : ∀ w ∈ y :: z :: rest, same w v = true := fun w hw => by
        rw [← hfound] at hw
        exact (List.mem_filter.1 hw).2
      have hyz := htrans y v z (hmem y (.head _)) (by rw [hcomm, hmem z (.tail _ (.head _))])
      rw [hfound] at hapart
      rw [List.rel_of_pairwise_cons hapart (.head _)] at hyz
      cases hyz
  have hpos : 0 < (firsts same [] xs).countP (same · v) ↔ 0 < xs.countP (same · v) := by
    rw [List.countP_pos_iff, List.countP_pos_iff]
    constructor
    · rintro ⟨a, ha, hav⟩
      exact ⟨a, (firsts_sublist [] xs).subset ha, hav⟩
    · rintro ⟨x, hx, hxv⟩
      obtain ⟨a, ha, hax⟩ := exists_same_firsts hself [] xs x hx
      exact ⟨a, ha, htrans a x v hax hxv⟩
  omega

theorem firsts_eq_eraseDups [BEq β] (hcomm : ∀ a b : β, (a == b) = (b == a)) (seen xs : List β) :
    firsts (· == ·) seen xs = (xs.filter fun x => !seen.any (· == x)).eraseDups := by
  induction xs generalizing seen with
  | nil => rfl
  | cons x rest ih =>
    rw [firsts]
    split
    · rename_i hx
      rw [ih, List.filter_cons_of_neg (by simpa using hx)]
    · rename_i hx
      rw [ih, List.filter_cons_of_pos (by simpa using hx), List.eraseDups_cons, List.filter_filter]
      congr 2
      refine List.filter_congr fun y _ => ?_
      rw [List.any_cons, Bool.not_or, hcomm x y]

theorem firsts_same_eq_eraseDups (vs : List Value) :
    firsts Value.same [] vs = vs.eraseDups :=
  (firsts_eq_eraseDups Value.same_comm [] vs).trans (by simp)

theorem firsts_sameItems_eq_eraseDups (ks : List (List Value)) :
    firsts Value.sameItems [] ks = ks.eraseDups := by
  have hsame : Value.sameItems = fun us vs : List Value => us == vs :=
    funext fun us => funext fun vs => Value.sameItems_eq_beq us vs
  have hcomm : ∀ us vs : List Value, (us == vs) = (vs == us) := fun us vs => by
    rw [← Value.sameItems_eq_beq, ← Value.sameItems_eq_beq, Value.sameItems_comm]
  rw [hsame]
  simpa using firsts_eq_eraseDups hcomm [] ks

section
variable (hself : ∀ a, same a a = true) (hcomm : ∀ a b, same a b = same b a)
  (htrans : ∀ a b c, same a b = true → same b c = true → same a c = true)
include hself hcomm htrans

/-- Items that come in another order leave the same ones of those that are the same, up to what
cannot be told of items that are. -/
theorem firsts_map_perm {γ : Type} {f : β → γ} (hf : ∀ a b, same a b = true → f a = f b)
    {xs ys : List β} (h : xs.Perm ys) :
    ((firsts same [] xs).map f).Perm ((firsts same [] ys).map f) := by
  let classes : Setoid β := {
    r a b := same a b = true
    iseqv := ⟨hself, fun {a b} h => by rwa [hcomm], fun {a b c} => htrans a b c⟩ }
  let toClass (a : β) : Quotient classes := Quotient.mk classes a
  have hnodup (zs : List β) : ((firsts same [] zs).map toClass).Nodup := by
    refine List.pairwise_map.2 ((firsts_pairwise [] zs).1.imp fun {a b} hab he => ?_)
    have hsame : same a b = true := Quotient.exact he
    rw [hab] at hsame
    cases hsame
  have hmem (zs : List β) (k : Quotient classes) :
      k ∈ (firsts same [] zs).map toClass ↔ k ∈ zs.map toClass := by
    constructor
    · exact fun hk => ((firsts_sublist [] zs).map toClass).subset hk
    · intro hk
      obtain ⟨z, hz, rfl⟩ := List.mem_map.1 hk
      obtain ⟨a, ha, haz⟩ := exists_same_firsts hself [] zs z hz
      exact List.mem_map.2 ⟨a, ha, Quotient.sound haz⟩
  have hclasses : ((firsts same [] xs).map toClass).Perm ((firsts same [] ys).map toClass) :=
    (List.perm_ext_iff_of_nodup (hnodup xs) (hnodup ys)).2 fun k => by
      rw [hmem, hmem, (h.map toClass).mem_iff]
  have hlift := hclasses.map (Quotient.lift f hf)
  rwa [List.map_map, List.map_map] at hlift

end

/-- Keys of which no two are the same split the items that they cover. -/
theorem flatMap_filter_perm (hcomm : ∀ a b, same a b = same b a)
    (htrans : ∀ a b c, same a b = true → same b c = true → same a c = true) (key : α → β)
    {ks : List β} (xs : List α) (hks : ks.Pairwise fun a b => same a b = false)
    (hxs : ∀ x ∈ xs, ∃ k ∈ ks, same k (key x) = true) :
    (ks.flatMap fun k => xs.filter fun x => same k (key x)).Perm xs := by
  induction ks generalizing xs with
  | nil =>
    cases xs with
    | nil => exact .refl _
    | cons x rest => simpa using hxs x (.head _)
  | cons k ks ih =>
    obtain ⟨hk, hks⟩ := List.pairwise_cons.1 hks
    -- The other keys take their items from those that are left without the first key's.
    have hothers : (ks.flatMap fun l => xs.filter fun x => same l (key x)) =
        ks.flatMap fun l => (xs.filter fun x => !same k (key x)).filter fun x => same l (key x) := by
      refine List.flatMap_congr fun l hl => ?_
      rw [List.filter_filter]
      refine List.filter_congr fun x hx => ?_
      by_cases hs : same l (key x) = true
      · have hne : same k (key x) = false := by
          by_contra hn
          have := htrans k (key x) l (by simpa using hn) (by rwa [hcomm])
          rw [hk l hl] at this
          cases this
        simp [hs, hne]
      · simp [hs]
    have hrest := ih (xs.filter fun x => !same k (key x)) hks fun x hx => by
      obtain ⟨hx, hn⟩ := List.mem_filter.1 hx
      obtain ⟨l, hl, hs⟩ := hxs x hx
      obtain rfl | hl := List.mem_cons.1 hl
      · simp [hs] at hn
      · exact ⟨l, hl, hs⟩
    rw [List.flatMap_cons, hothers]
    exact (hrest.append_left _).trans (List.filter_append_perm _ xs)

theorem firsts_concat (seen xs : List β) (y : β) : firsts same seen (xs ++ [y]) =
    if (seen ++ firsts same seen xs).any (same · y) then firsts same seen xs
    else firsts same seen xs ++ [y] := by
  induction xs generalizing seen with
  | nil => simp [firsts]
  | cons x rest ih =>
    rw [List.cons_append, firsts, firsts]
    split
    · exact ih seen
    · have hany : ((x :: seen) ++ firsts same (x :: seen) rest).any (same · y) =
          (seen ++ x :: firsts same (x :: seen) rest).any (same · y) := by
        simp [Bool.or_left_comm]
      rw [ih, hany]
      split <;> rfl

section
variable (hself : ∀ a, same a a = true) (hcomm : ∀ a b, same a b = same b a)
  (htrans : ∀ a b c, same a b = true → same b c = true → same a c = true)
include hcomm htrans

/-- An item enters one group at most, since no two of them have the same key. -/
theorem enter_map {ks : List β} (hks : ks.Pairwise fun a b => same a b = false)
    (members : β → List α) (x : β × α) : enter same (ks.map fun k => (k, members k)) x =
      (ks.map fun k => (k, members k ++ if same k x.1 then [x.2] else [])) ++
        if ks.any (same · x.1) then [] else [(x.1, [x.2])] := by
  induction ks with
  | nil => rfl
  | cons k ks ih =>
    obtain ⟨hk, hks⟩ := List.pairwise_cons.1 hks
    rw [List.map_cons, enter]
    cases hx : same k x.1 with
    | false => simp [ih hks, hx]
    | true =>
      have hothers : ∀ l ∈ ks, same l x.1 = false := by
        intro l hl
        by_contra hn
        have hkl := htrans k x.1 l hx (by rw [hcomm]; simpa using hn)
        rw [hk l hl] at hkl
        cases hkl
      have hmembers : (ks.map fun l => (l, members l ++ if same l x.1 then [x.2] else [])) =
          ks.map fun l => (l, members l) :=
        List.map_congr_left fun l hl => by simp [hothers l hl]
      simp [hx, hmembers]

include hself

/-- The keys come in the order in which they first appear, each with the items that have it. -/
theorem groupBy_eq_map (xs : List (β × α)) : groupBy same xs =
    (firsts same [] (xs.map (·.1))).map fun k => (k, (xs.filter fun x => same k x.1).map (·.2)) := by
  induction xs using List.reverseRecOn with
  | nil => rfl
  | append_singleton xs x ih =>
    let members (k : β) : List α := (xs.filter fun y => same k y.1).map (·.2)
    let ks : List β := firsts same [] (xs.map (·.1))
    have hmembers (k : β) : ((xs ++ [x]).filter fun y => same k y.1).map (·.2) =
        members k ++ if same k x.1 then [x.2] else [] := by
      simp only [List.filter_append, List.map_append, members]
      cases hk : same k x.1 <;> simp [hk]
    have hkeys : firsts same [] ((xs ++ [x]).map (·.1)) =
        if ks.any (same · x.1) then ks else ks ++ [x.1] := by
      rw [List.map_append, List.map_singleton, firsts_concat]
      rfl
    rw [groupBy, List.foldl_append]
    show enter same (groupBy same xs) x = _
    rw [ih, hkeys]
    show enter same (ks.map fun k => (k, members k)) x = _
    rw [enter_map hcomm htrans (firsts_pairwise [] _).1]
    simp only [hmembers]
    split
    · rw [List.append_nil]
    · rename_i hnew
      -- No item before has a key that is the same as the new one.
      have hnone : members x.1 = [] := by
        refine List.map_eq_nil_iff.2 (List.filter_eq_nil_iff.2 fun y hy hsame => hnew ?_)
        obtain ⟨k, hk, hky⟩ := exists_same_firsts hself [] _ y.1 (List.mem_map_of_mem hy)
        exact List.any_eq_true.2 ⟨k, hk, htrans k y.1 x.1 hky (by rwa [hcomm])⟩
      rw [List.map_append, List.map_singleton, hnone, hself, if_pos rfl, List.nil_append]

theorem groupBy_perm (xs : List (β × α)) :
    ((groupBy same xs).flatMap (·.2)).Perm (xs.map (·.2)) := by
  have hperm := flatMap_filter_perm hcomm htrans (fun x : β × α => x.1) xs
    (firsts_pairwise [] (xs.map (·.1))).1 fun x hx => by
      simpa using exists_same_firsts hself [] (xs.map (·.1)) x.1 (List.mem_map_of_mem hx)
  have hmap := hperm.map (·.2)
  rw [groupBy_eq_map hself hcomm htrans, List.flatMap_map]
  rwa [List.map_flatMap] at hmap

end

end Evaluation

end EntityQuery
