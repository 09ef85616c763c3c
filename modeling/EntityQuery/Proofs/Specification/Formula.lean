import EntityQuery.Specification
import EntityQuery.Proofs.Evaluation.Condition
/-! Specifications that are put together from others mean the Boolean formula that they are put
together as. Parts that give no condition are left out of it, and each part is asked once, from left
to right. -/
namespace EntityQuery.Specification
open Criteria Evaluation

inductive Formula (α : Type) where
  | atom (a : α)
  | and (left right : Formula α)
  | or (left right : Formula α)
  | not (formula : Formula α)

namespace Formula
variable {α ε : Type}

def atoms : Formula α → List α
  | atom a => [a]
  | and l r | or l r => l.atoms ++ r.atoms
  | not f => f.atoms

def value (truth : α → Bool) : Formula α → Bool
  | atom a => truth a
  | and l r => l.value truth && r.value truth
  | or l r => l.value truth || r.value truth
  | not f => !f.value truth

/-- The value when an atom may fail to have one. The right side counts where the left one does not
decide. -/
def value? (truth : α → Except ε Bool) : Formula α → Except ε Bool
  | atom a => truth a
  | and l r => do if ← l.value? truth then r.value? truth else return false
  | or l r => do if ← l.value? truth then return true else r.value? truth
  | not f => return !(← f.value? truth)

theorem value?_eq_value {truth : α → Except ε Bool} {truth' : α → Bool} {f : Formula α}
    (h : ∀ a ∈ f.atoms, truth a = .ok (truth' a)) : f.value? truth = .ok (f.value truth') := by
  induction f with
  | atom a => exact h a (List.mem_singleton_self a)
  | and l r hl hr =>
    rw [value?, hl fun a ha => h a (List.mem_append_left _ ha),
      hr fun a ha => h a (List.mem_append_right _ ha), ok_bind, value]
    cases l.value truth' <;> rfl
  | or l r hl hr =>
    rw [value?, hl fun a ha => h a (List.mem_append_left _ ha),
      hr fun a ha => h a (List.mem_append_right _ ha), ok_bind, value]
    cases l.value truth' <;> rfl
  | not f hf => rw [value?, hf h, ok_bind, value, pure_eq_ok]

end Formula

/-- How a specification is put together from its leaves. -/
inductive Tree (α : Type) where
  | leaf (a : α)
  | and (left right : Tree α)
  | or (left right : Tree α)
  | not (tree : Tree α)
  | given (tree : Tree α)
  | absent

namespace Tree
variable {α β : Type}

def leaves : Tree α → List α
  | leaf a => [a]
  | and l r | or l r => l.leaves ++ r.leaves
  | not t | given t => t.leaves
  | absent => []

def map (f : α → β) : Tree α → Tree β
  | leaf a => leaf (f a)
  | and l r => and (l.map f) (r.map f)
  | or l r => or (l.map f) (r.map f)
  | not t => not (t.map f)
  | given t => given (t.map f)
  | absent => absent

/-- Both sides joined; a side without a formula leaves the other. -/
def joined (join : Formula α → Formula α → Formula α) :
    Option (Formula α) → Option (Formula α) → Option (Formula α)
  | some l, some r => some (join l r)
  | some f, none | none, some f => some f
  | none, none => none

def formula? : Tree (Option α) → Option (Formula α)
  | leaf a => a.map .atom
  | and l r => joined .and l.formula? r.formula?
  | or l r => joined .or l.formula? r.formula?
  | not t => t.formula?.map .not
  | given t => t.formula?
  | absent => none

def specification : Tree Specification → Specification
  | leaf s => s
  | and l r => l.specification.and r.specification
  | or l r => l.specification.or r.specification
  | not t => t.specification.not
  | given t => whenGiven (some t.specification)
  | absent => whenGiven none

/-- What each leaf gives, for the query that those before it leave. -/
def answers (root : Root) : Tree Specification → Query → Tree (Option Predicate)
  | leaf s, q => leaf (s root q).1
  | and l r, q => and (l.answers root q) (r.answers root (l.specification root q).2)
  | or l r, q => or (l.answers root q) (r.answers root (l.specification root q).2)
  | not t, q => not (t.answers root q)
  | given t, q => given (t.answers root q)
  | absent, _ => absent

end Tree

def asked (root : Root) : List Specification → Query → List (Option Predicate) × Query
  | [], q => ([], q)
  | s :: rest, q =>
    ((s root q).1 :: (asked root rest (s root q).2).1, (asked root rest (s root q).2).2)

theorem asked_append (root : Root) (ss ts : List Specification) (q : Query) :
    asked root (ss ++ ts) q =
      ((asked root ss q).1 ++ (asked root ts (asked root ss q).2).1,
        (asked root ts (asked root ss q).2).2) := by
  induction ss generalizing q with
  | nil => rfl
  | cons s ss ih => rw [List.cons_append, asked, ih, asked, List.cons_append]

section
variable {root : Root} {q : Query} {join : List Predicate → Predicate} {s t : Specification}

/-- Both sides of a junction are asked, the right one for the query that the left one leaves. -/
theorem junction_query : (junction join s t root q).2 = (t root (s root q).2).2 := by
  unfold junction
  dsimp only
  cases (s root q).1 <;> cases (t root (s root q).2).1 <;> rfl

def Means (p : Predicate) (f : Formula Predicate) : Prop :=
  ∀ (b : Bindings) (c : Combination), satisfies b c p = f.value? (satisfies b c)

theorem means_allOf {p p' : Predicate} {f f' : Formula Predicate} (h : Means p f)
    (h' : Means p' f') : Means (.allOf [p, p']) (f.and f') := by
  intro b c
  rw [satisfies_allOf, satisfiesAll, satisfiesAll_singleton, Formula.value?, h b c, h' b c]

theorem means_anyOf {p p' : Predicate} {f f' : Formula Predicate} (h : Means p f)
    (h' : Means p' f') : Means (.anyOf [p, p']) (f.or f') := by
  intro b c
  rw [satisfies_anyOf, satisfiesAny, satisfiesAny_singleton, Formula.value?, h b c, h' b c]

theorem means_not {p : Predicate} {f : Formula Predicate} (h : Means p f) :
    Means p.not f.not := by
  intro b c
  rw [satisfies, Formula.value?, h b c]

/-- A junction gives a condition exactly when a side does, and it means the sides joined. -/
theorem junction_means {joinFormulas : Formula Predicate → Formula Predicate → Formula Predicate}
    (hjoin : ∀ {p p' f f'}, Means p f → Means p' f' → Means (join [p, p']) (joinFormulas f f'))
    {f f' : Option (Formula Predicate)} (hs : Option.Rel Means (s root q).1 f)
    (ht : Option.Rel Means (t root (s root q).2).1 f') :
    Option.Rel Means (junction join s t root q).1 (Tree.joined joinFormulas f f') := by
  unfold junction
  dsimp only
  generalize (s root q).1 = p at hs
  generalize (t root (s root q).2).1 = p' at ht
  cases hs with
  | none => cases ht with
    | none => exact .none
    | some h' => exact .some h'
  | some h => cases ht with
    | none => exact .some h
    | some h' => exact .some (hjoin h h')

end

namespace Tree
variable {root : Root}

theorem answers_shape (t : Tree Specification) (q : Query) :
    (t.answers root q).map (fun _ => ()) = t.map fun _ => () := by
  induction t generalizing q with
  | leaf s => rfl
  | and l r hl hr => rw [answers, map, hl, hr, map]
  | or l r hl hr => rw [answers, map, hl, hr, map]
  | not t ht => rw [answers, map, ht, map]
  | given t ht => rw [answers, map, ht, map]
  | absent => rfl

theorem asked_leaves (t : Tree Specification) (q : Query) :
    asked root t.leaves q = ((t.answers root q).leaves, (t.specification root q).2) := by
  induction t generalizing q with
  | leaf s => rfl
  | and l r hl hr =>
    rw [leaves, asked_append, hl, hr, answers, leaves]
    exact congrArg (Prod.mk _) junction_query.symm
  | or l r hl hr =>
    rw [leaves, asked_append, hl, hr, answers, leaves]
    exact congrArg (Prod.mk _) junction_query.symm
  | not t ht => exact ht q
  | given t ht => exact ht q
  | absent => rfl

theorem means_formula? (t : Tree Specification) (q : Query) :
    Option.Rel Means (t.specification root q).1 (t.answers root q).formula? := by
  induction t generalizing q with
  | leaf s =>
    rw [specification, answers, formula?]
    cases (s root q).1 with
    | none => exact .none
    | some p => exact .some fun b c => rfl
  | and l r hl hr => exact junction_means means_allOf (hl q) (hr _)
  | or l r hl hr => exact junction_means means_anyOf (hl q) (hr _)
  | not t ht =>
    have hnot := ht q
    rw [answers, formula?]
    show Option.Rel Means ((t.specification root q).1.map .not) _
    generalize (t.specification root q).1 = p at hnot
    generalize (t.answers root q).formula? = f at hnot
    cases hnot with
    | none => exact .none
    | some h => exact .some (means_not h)
  | given t ht => exact ht q
  | absent => exact .none

theorem atoms_formula? (t : Tree (Option α)) :
    (t.formula?.map Formula.atoms).getD [] = t.leaves.reduceOption := by
  have hjoined : ∀ {join : Formula α → Formula α → Formula α}
      (_ : ∀ l r, (join l r).atoms = l.atoms ++ r.atoms) (f f' : Option (Formula α)),
      ((joined join f f').map Formula.atoms).getD [] =
        (f.map Formula.atoms).getD [] ++ (f'.map Formula.atoms).getD [] := by
    intro join hjoin f f'
    cases f <;> cases f' <;> simp [joined, hjoin]
  induction t with
  | leaf a => cases a <;> rfl
  | and l r hl hr =>
    rw [formula?, hjoined fun _ _ => rfl, hl, hr, leaves, List.reduceOption_append]
  | or l r hl hr =>
    rw [formula?, hjoined fun _ _ => rfl, hl, hr, leaves, List.reduceOption_append]
  | not t ht =>
    rw [formula?, Option.map_map, leaves, ← ht]
    rfl
  | given t ht => exact ht
  | absent => rfl

/-- A specification gives a condition unless its formula is empty, and the condition means the
formula: it holds where the formula does when the leaves' conditions have a value, and else fails
like the first of them that is reached. Each leaf is asked once, from left to right, for the query
that those before it leave. -/
theorem specification_means (t : Tree Specification) (root : Root) (q : Query) :
    let answers := t.answers root q
    answers.map (fun _ => ()) = t.map (fun _ => ()) ∧
    asked root t.leaves q = (answers.leaves, (t.specification root q).2) ∧
    ((t.specification root q).1 = none ↔ answers.formula? = none) ∧
    ∀ p ∈ (t.specification root q).1, ∃ f ∈ answers.formula?,
      f.atoms = answers.leaves.reduceOption ∧
      (∀ b c, satisfies b c p = f.value? (satisfies b c)) ∧
      ∀ b c truth, (∀ a ∈ f.atoms, satisfies b c a = .ok (truth a)) →
        satisfies b c p = .ok (f.value truth) := by
  intro answers
  have hmeans : Option.Rel Means _ answers.formula? := t.means_formula? q
  have hatoms := atoms_formula? answers
  refine ⟨t.answers_shape q, t.asked_leaves q, ?_⟩
  generalize (t.specification root q).1 = p? at hmeans
  generalize answers.formula? = f? at hmeans hatoms
  cases hmeans with
  | none => simp
  | some hmeans =>
    rename_i p f
    refine ⟨by simp, fun p' hp' => ?_⟩
    cases hp'
    refine ⟨f, rfl, hatoms, hmeans, fun b c truth htruth => ?_⟩
    rw [hmeans b c]
    exact Formula.value?_eq_value htruth

/-- The second leaf gives no condition and adds a source, which the third one is about. -/
theorem specification_means_joined :
    let isNull (r : Root) (attr : String) : Predicate := .isNull (.path (r.get attr))
    let t : Tree Specification :=
      .and (.or (.given (.leaf fun root q => (some (isNull root "x"), q)))
          (.and (.leaf fun _ q => (none, (q.addRootAs "B" "b").1)) .absent))
        (.not (.leaf fun _ q =>
          (some (.or (q.roots.map fun r => isNull r "y")), q.setDistinct true)))
    let root : Root := ⟨"A", "a"⟩
    let q : Query := { result := .entity, roots := [root] }
    let c : Combination := [(root, .object [("y", .integer 1)]), (⟨"B", "b"⟩, .object [])]
    ((t.specification root q).2.roots, (t.specification root q).2.distinct) =
        ([root, ⟨"B", "b"⟩], true) ∧
      ∃ p, (t.specification root q).1 = some p ∧ satisfies [] c p = .ok (true && !true) := by
  intro isNull t root q c
  obtain ⟨-, hasked, -, hmeans⟩ := specification_means t root q
  obtain ⟨f, hf, -, -, hvalue⟩ := hmeans _ rfl
  obtain rfl : Formula.and (.atom (isNull root "x"))
      (.not (.atom (.or [isNull root "y", isNull ⟨"B", "b"⟩ "y"]))) = f := Option.some.inj hf
  refine ⟨rfl, _, rfl, hvalue [] c (fun _ => true) fun a ha => ?_⟩
  obtain rfl | rfl : a = isNull root "x" ∨ a = .or [isNull root "y", isNull ⟨"B", "b"⟩ "y"] := by
    simpa [Formula.atoms] using ha
  · decide +kernel
  · decide +kernel

end Tree

end EntityQuery.Specification
