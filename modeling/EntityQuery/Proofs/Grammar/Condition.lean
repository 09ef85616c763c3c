import Mathlib
import EntityQuery.QueryText.Statement
import EntityQuery.Proofs.Outcome
/-! The grammar of conditions as derivations over tokens. The rules that read conditions find
exactly the derivations: what they read is derivable, and what is derivable they read. -/
namespace EntityQuery.QueryText
open Criteria

inductive Operand : Token → Expression → Prop
  | number (n : Number) : Operand (.number n) (.literal (.number n))
  | quoted (s : String) : Operand (.quoted s) (.literal (.string s))
  | parameter (name : String) : Operand (.parameter name) (.parameter (parameterNamed name))
  | trueWord {s : String} (h : Text.foldCase s = "true") : Operand (.word s) (.literal (.bool true))
  | falseWord {s : String} (h : Text.foldCase s = "false") :
    Operand (.word s) (.literal (.bool false))
  | nullWord {s : String} (h : Text.foldCase s = "null") : Operand (.word s) (.literal .null)
  | name {s : String} (h : isReserved s = false) : Operand (.word s) (.path (pathOf s))

inductive Relation : List Token → Predicate → Prop
  | comparison {l r : Token} {left right : Expression} (hl : Operand l left) (op : Comparison)
    (hr : Operand r right) : Relation [l, .symbol (.comparison op), r] (.comparison op left right)
  | like {l k r : Token} {left right : Expression} (hl : Operand l left) (hk : k.isKeyword "like")
    (hr : Operand r right) : Relation [l, k, r] (.like left right)
  | notLike {l n k r : Token} {left right : Expression} (hl : Operand l left)
    (hn : n.isKeyword "not") (hk : k.isKeyword "like") (hr : Operand r right) :
    Relation [l, n, k, r] (.not (.like left right))
  | isNull {l i k : Token} {left : Expression} (hl : Operand l left) (hi : i.isKeyword "is")
    (hk : k.isKeyword "null") : Relation [l, i, k] (.isNull left)
  | isNotNull {l i n k : Token} {left : Expression} (hl : Operand l left) (hi : i.isKeyword "is")
    (hn : n.isKeyword "not") (hk : k.isKeyword "null") : Relation [l, i, n, k] (.isNotNull left)

mutual

inductive Disjunction : List Token → List Predicate → Prop
  | one {ts : List Token} {ps : List Predicate} (h : Conjunction ts ps) :
    Disjunction ts [joined .and ps]
  | more {ts us : List Token} {k : Token} {ps qs : List Predicate} (h : Conjunction ts ps)
    (hk : k.isKeyword "or") (hs : Disjunction us qs) :
    Disjunction (ts ++ k :: us) (joined .and ps :: qs)

inductive Conjunction : List Token → List Predicate → Prop
  | one {ts : List Token} {p : Predicate} (h : Negation ts p) : Conjunction ts [p]
  | more {ts us : List Token} {k : Token} {p : Predicate} {ps : List Predicate}
    (h : Negation ts p) (hk : k.isKeyword "and") (hs : Conjunction us ps) :
    Conjunction (ts ++ k :: us) (p :: ps)

/-- A relation or a condition in parentheses, behind any number of `not`s. -/
inductive Negation : List Token → Predicate → Prop
  | not {ts : List Token} {k : Token} {p : Predicate} (hk : k.isKeyword "not")
    (h : Negation ts p) : Negation (k :: ts) (.not p)
  | group {ts : List Token} {ps : List Predicate} (h : Disjunction ts ps) :
    Negation (.symbol .opening :: (ts ++ [.symbol .closing])) (joined .or ps)
  | relation {ts : List Token} {p : Predicate} (h : Relation ts p) : Negation ts p

end

theorem operandOf?_eq_some_iff {t : Token} {e : Expression} :
    operandOf? t = some e ↔ Operand t e := by
  constructor
  · intro h
    cases t with
    | number n => cases h; exact .number n
    | quoted s => cases h; exact .quoted s
    | parameter name => cases h; exact .parameter name
    | symbol s => cases h
    | word s =>
      simp only [operandOf?, wordOperand?] at h
      split at h
      · cases h; exact .trueWord ‹_›
      · cases h; exact .falseWord ‹_›
      · cases h; exact .nullWord ‹_›
      · split at h
        · cases h
        · cases h; exact .name (by simpa using ‹¬ isReserved s = true›)
  · intro h
    cases h with
    | number | quoted | parameter => rfl
    | trueWord h | falseWord h | nullWord h => simp [operandOf?, wordOperand?, h]
    | @name s h =>
      have hr : Text.foldCase s ∉ reserved := by simpa [isReserved, Text.isOneOf] using h
      simp only [operandOf?, wordOperand?]
      split
      · exact absurd (by rw [‹Text.foldCase s = "true"›]; decide) hr
      · exact absurd (by rw [‹Text.foldCase s = "false"›]; decide) hr
      · exact absurd (by rw [‹Text.foldCase s = "null"›]; decide) hr
      · simp [h]

section
variable {t : Token} {ts rest : List Token} {word other : String}

theorem keyword?_of_isKeyword (h : t.isKeyword word) :
    keyword? word (t :: ts) = some ⟨(), ts, by simp⟩ := by
  simp [keyword?, h]

theorem keyword?_of_other (h : t.isKeyword other) (hne : other ≠ word) :
    keyword? word (t :: ts) = none := by
  obtain ⟨s, rfl, rfl⟩ := Token.isKeyword_iff.1 h
  simp [keyword?, Token.isKeyword, hne]

theorem keyword?_eq_some {r : Reading Unit ts} (h : keyword? word ts = some r) :
    ∃ t, t.isKeyword word ∧ ts = t :: r.rest := by
  cases ts with
  | nil => cases h
  | cons t ts =>
    simp only [keyword?] at h
    split at h
    · cases h; exact ⟨t, ‹_›, rfl⟩
    · cases h

theorem symbolAt?_eq_some {s : Symbol} {r : Reading Unit ts} (h : symbolAt? s ts = some r) :
    ts = .symbol s :: r.rest := by
  cases ts with
  | nil => cases h
  | cons t ts =>
    simp only [symbolAt?] at h
    split at h
    · cases h; subst t; rfl
    · cases h

theorem keyword_eq_ok {r : Reading Unit ts} (h : keyword word ts = .ok r) :
    ∃ t, t.isKeyword word ∧ ts = t :: r.rest := by
  simp only [keyword] at h
  split at h
  · cases h; exact keyword?_eq_some ‹_›
  · cases h

theorem keyword_of_isKeyword (h : t.isKeyword word) :
    keyword word (t :: ts) = .ok ⟨(), ts, by simp⟩ := by
  simp [keyword, keyword?_of_isKeyword h]

theorem closing_eq_ok {r : Reading Unit ts} (h : closing ts = .ok r) :
    ts = .symbol .closing :: r.rest := by
  simp only [closing] at h
  split at h
  · cases h; exact symbolAt?_eq_some ‹_›
  · cases h

theorem operand_eq_ok {r : Reading Expression ts} (h : operand ts = .ok r) :
    ∃ t, Operand t r.value ∧ ts = t :: r.rest := by
  cases ts with
  | nil => cases h
  | cons t ts =>
    simp only [operand] at h
    split at h
    · cases h; exact ⟨t, operandOf?_eq_some_iff.1 ‹_›, rfl⟩
    · cases h

theorem operand_of_operand {e : Expression} (h : Operand t e) :
    operand (t :: ts) = .ok ⟨e, ts, by simp⟩ := by
  have := operandOf?_eq_some_iff.2 h
  simp only [operand]
  split
  · simp_all
  · simp_all

theorem comparison_eq_ok {r : Reading Comparison ts} (h : comparison ts = .ok r) :
    ts = .symbol (.comparison r.value) :: r.rest := by
  unfold comparison at h
  split at h
  · cases h; rfl
  · cases h

theorem optional_of_isKeyword (h : t.isKeyword word) : optional word (t :: ts) = (true, ts) := by
  simp [optional, keyword?_of_isKeyword h]

theorem optional_of_none (h : keyword? word ts = none) : optional word ts = (false, ts) := by
  simp [optional, h]

theorem optional_cases (word : String) (ts : List Token) :
    (∃ t us, t.isKeyword word ∧ ts = t :: us ∧ optional word ts = (true, us)) ∨
      keyword? word ts = none ∧ optional word ts = (false, ts) := by
  cases h : keyword? word ts with
  | none => exact .inr ⟨rfl, optional_of_none h⟩
  | some r =>
    obtain ⟨t, ht, he⟩ := keyword?_eq_some h
    exact .inl ⟨t, r.rest, ht, he, by simp [optional, h]⟩

end

/-- The rule `x` reads `v` and leaves `rest`. -/
def Rule.Reads {α : Type} {ts : List Token} (x : Rule α ts) (v : α) (rest : List Token) : Prop :=
  ∃ h, x = .ok ⟨v, rest, h⟩

namespace Rule.Reads
variable {α β : Type} {ts us mid rest : List Token} {v : α} {w : β}

theorem of_ok {x : Rule α ts} {r : Reading α ts} (h : x = .ok r) : x.Reads r.value r.rest :=
  ⟨r.shorter, h⟩

theorem pure {h : rest.length < ts.length} {v' : α} (hv : v = v') :
    Rule.Reads (.ok ⟨v, rest, h⟩ : Rule α ts) v' rest := by
  subst hv
  exact ⟨h, rfl⟩

theorem map {x : Rule α ts} (hx : x.Reads v rest) (f : α → β) :
    Rule.Reads (Except.map (Reading.map f) x) (f v) rest := by
  obtain ⟨h, rfl⟩ := hx
  exact ⟨h, rfl⟩

theorem bind {x : Rule α ts} {f : Reading α ts → Rule β us} (hx : x.Reads v mid)
    (hf : ∀ h, (f ⟨v, mid, h⟩).Reads w rest) : Rule.Reads (x >>= f) w rest := by
  obtain ⟨h, rfl⟩ := hx
  exact hf h

end Rule.Reads

theorem relation_eq_ok {ts : List Token} {r : Reading Predicate ts} (h : relation ts = .ok r) :
    ∃ us, ts = us ++ r.rest ∧ Relation us r.value := by
  obtain ⟨left, hl, h⟩ := bind_eq_ok_iff.1 h
  obtain ⟨x, hx, h⟩ := bind_eq_ok_iff.1 h
  cases h
  obtain ⟨l, hlo, hle⟩ := operand_eq_ok hl
  suffices ∃ us, left.rest = us ++ x.rest ∧ Relation (l :: us) x.value by
    obtain ⟨us, he, hr⟩ := this
    exact ⟨l :: us, hle.trans (congrArg (l :: ·) he), hr⟩
  unfold relationTo at hx
  split at hx
  · -- `is [not] null`
    rename_i i hi
    obtain ⟨k, hk, he⟩ := keyword?_eq_some hi
    obtain ⟨null, hnull, hx⟩ := bind_eq_ok_iff.1 hx
    cases hx
    obtain ⟨n, hn, hne⟩ := keyword_eq_ok hnull
    rcases optional_cases "not" i.rest with ⟨m, us, hm, hie, ho⟩ | ⟨-, ho⟩
    · simp only [ho] at hne ⊢
      exact ⟨[k, m, n], by simp [he, hie, hne], .isNotNull hlo hk hm hn⟩
    · simp only [ho] at hne ⊢
      exact ⟨[k, n], by simp [he, hne], .isNull hlo hk hn⟩
  split at hx
  · -- `not like`
    rename_i n hn
    obtain ⟨m, hm, he⟩ := keyword?_eq_some hn
    obtain ⟨like, hlike, hx⟩ := bind_eq_ok_iff.1 hx
    obtain ⟨pattern, hp, hx⟩ := bind_eq_ok_iff.1 hx
    cases hx
    obtain ⟨k, hk, hke⟩ := keyword_eq_ok hlike
    obtain ⟨p, hpo, hpe⟩ := operand_eq_ok hp
    exact ⟨[m, k, p], by simp [he, hke, hpe], .notLike hlo hm hk hpo⟩
  split at hx
  · -- `like`
    rename_i like hlike
    obtain ⟨k, hk, he⟩ := keyword?_eq_some hlike
    obtain ⟨pattern, hp, hx⟩ := bind_eq_ok_iff.1 hx
    cases hx
    obtain ⟨p, hpo, hpe⟩ := operand_eq_ok hp
    exact ⟨[k, p], by simp [he, hpe], .like hlo hk hpo⟩
  · obtain ⟨op, hop, hx⟩ := bind_eq_ok_iff.1 hx
    obtain ⟨right, hr, hx⟩ := bind_eq_ok_iff.1 hx
    cases hx
    obtain ⟨r, hro, hre⟩ := operand_eq_ok hr
    exact ⟨[.symbol (.comparison op.value), r], by simp [comparison_eq_ok hop, hre],
      .comparison hlo op.value hro⟩

theorem Relation.reads {ts : List Token} {p : Predicate} (h : Relation ts p) (rest : List Token) :
    (relation (ts ++ rest)).Reads p rest := by
  suffices ∃ l us e, Operand l e ∧ ts = l :: us ∧ (relationTo e (us ++ rest)).Reads p rest by
    obtain ⟨l, us, e, hl, rfl, hr⟩ := this
    exact .bind (.of_ok (operand_of_operand hl)) fun _ => .bind hr fun _ => .pure rfl
  cases h with
  | @comparison l r left right hl op hr =>
    refine ⟨l, _, left, hl, rfl, ?_⟩
    have hc : (QueryText.comparison (.symbol (.comparison op) :: r :: rest)).Reads op (r :: rest) :=
      .of_ok rfl
    exact .bind hc fun _ => .bind (.of_ok (operand_of_operand hr)) fun _ => .pure rfl
  | @like l k r left right hl hk hr =>
    refine ⟨l, _, left, hl, rfl, ?_⟩
    simp only [relationTo, List.cons_append, keyword?_of_other hk (by decide : "like" ≠ "is"),
      keyword?_of_other hk (by decide : "like" ≠ "not"), keyword?_of_isKeyword hk]
    exact .bind (.of_ok (operand_of_operand hr)) fun _ => .pure rfl
  | @notLike l n k r left right hl hn hk hr =>
    refine ⟨l, _, left, hl, rfl, ?_⟩
    simp only [relationTo, List.cons_append, keyword?_of_other hn (by decide : "not" ≠ "is"),
      keyword?_of_isKeyword hn]
    exact .bind (.of_ok (keyword_of_isKeyword hk)) fun _ =>
      .bind (.of_ok (operand_of_operand hr)) fun _ => .pure rfl
  | @isNull l i k left hl hi hk =>
    refine ⟨l, _, left, hl, rfl, ?_⟩
    simp only [relationTo, List.cons_append, keyword?_of_isKeyword hi]
    have ho : optional "not" (k :: rest) = (false, k :: rest) :=
      optional_of_none (keyword?_of_other hk (by decide))
    exact .bind (by rw [List.nil_append, ho]; exact .of_ok (keyword_of_isKeyword hk)) fun _ =>
      .pure (if_neg (by simp [ho]))
  | @isNotNull l i n k left hl hi hn hk =>
    refine ⟨l, _, left, hl, rfl, ?_⟩
    simp only [relationTo, List.cons_append, keyword?_of_isKeyword hi]
    have ho : optional "not" (n :: k :: rest) = (true, k :: rest) := optional_of_isKeyword hn
    exact .bind (by rw [List.nil_append, ho]; exact .of_ok (keyword_of_isKeyword hk)) fun _ =>
      .pure (if_pos (by simp [ho]))

/-- What the rules for conditions read is derivable. -/
theorem disjuncts_conjuncts_negation_eq_ok :
    (∀ ts r, disjuncts ts = .ok r → ∃ us, ts = us ++ r.rest ∧ Disjunction us r.value) ∧
    (∀ ts r, conjuncts ts = .ok r → ∃ us, ts = us ++ r.rest ∧ Conjunction us r.value) ∧
    (∀ ts r, negation ts = .ok r → ∃ us, ts = us ++ r.rest ∧ Negation us r.value) := by
  apply disjuncts.mutual_induct
  case case1 =>
    intro ts hc hd r h
    rw [disjuncts] at h
    obtain ⟨first, hf, h⟩ := bind_eq_ok_iff.1 h
    obtain ⟨us, he, hus⟩ := hc first hf
    split at h
    · cases h
      exact ⟨us, he, .one hus⟩
    · rename_i k hk
      obtain ⟨t, ht, hte⟩ := keyword?_eq_some hk
      obtain ⟨others, ho, h⟩ := bind_eq_ok_iff.1 h
      cases h
      obtain ⟨vs, hve, hvs⟩ := hd first k others ho
      exact ⟨us ++ t :: vs, by simp [← hve, ← hte, ← he], .more hus ht hvs⟩
  case case2 =>
    intro ts hn hc r h
    rw [conjuncts] at h
    obtain ⟨first, hf, h⟩ := bind_eq_ok_iff.1 h
    obtain ⟨us, he, hus⟩ := hn first hf
    split at h
    · cases h
      exact ⟨us, he, .one hus⟩
    · rename_i k hk
      obtain ⟨t, ht, hte⟩ := keyword?_eq_some hk
      obtain ⟨others, ho, h⟩ := bind_eq_ok_iff.1 h
      cases h
      obtain ⟨vs, hve, hvs⟩ := hc first k others ho
      exact ⟨us ++ t :: vs, by simp [← hve, ← hte, ← he], .more hus ht hvs⟩
  case case3 =>
    intro ts k hk hn r h
    rw [negation] at h
    simp only [hk] at h
    obtain ⟨item, hi, h⟩ := bind_eq_ok_iff.1 h
    cases h
    obtain ⟨t, ht, hte⟩ := keyword?_eq_some hk
    obtain ⟨us, he, hus⟩ := hn item hi
    exact ⟨t :: us, by simp [hte, he, Reading.map, Reading.after], .not ht hus⟩
  case case4 =>
    intro ts hn k hk hd r h
    rw [negation] at h
    simp only [hn, hk] at h
    obtain ⟨inner, hi, h⟩ := bind_eq_ok_iff.1 h
    obtain ⟨close, hc, h⟩ := bind_eq_ok_iff.1 h
    cases h
    obtain ⟨us, he, hus⟩ := hd inner hi
    refine ⟨.symbol .opening :: (us ++ [.symbol .closing]), ?_, .group hus⟩
    simp [symbolAt?_eq_some hk, he, closing_eq_ok hc]
  case case5 =>
    intro ts hn hk r h
    rw [negation] at h
    simp only [hn, hk] at h
    obtain ⟨us, he, hus⟩ := relation_eq_ok h
    exact ⟨us, he, .relation hus⟩

theorem isReserved_of_isKeyword {s word : String} (h : Token.isKeyword word (.word s))
    (hr : word ∈ reserved) : isReserved s = true := by
  obtain ⟨_, ⟨⟩, rfl⟩ := Token.isKeyword_iff.1 h
  simpa [isReserved, Text.isOneOf] using hr

theorem Operand.isKeyword_not {t : Token} {e : Expression} (h : Operand t e) :
    t.isKeyword "not" = false := by
  cases h with
  | number | quoted | parameter => rfl
  | trueWord h | falseWord h | nullWord h => simp [Token.isKeyword, h]
  | @name s h =>
    by_contra hn
    have := isReserved_of_isKeyword (by simpa using hn : Token.isKeyword "not" (.word s)) (by decide)
    simp [h] at this

theorem Relation.head {ts : List Token} {p : Predicate} (h : Relation ts p) :
    ∃ t us e, ts = t :: us ∧ Operand t e := by
  cases h with
  | comparison hl | like hl | notLike hl | isNull hl | isNotNull hl => exact ⟨_, _, _, rfl, hl⟩

mutual

/-- A derivable condition is read when no `and` or `or` follows that would continue it. -/
theorem Disjunction.reads {ts : List Token} {ps : List Predicate} (h : Disjunction ts ps)
    {rest : List Token} (ha : keyword? "and" rest = none) (ho : keyword? "or" rest = none) :
    (disjuncts (ts ++ rest)).Reads ps rest := by
  match h with
  | .one h =>
    rw [disjuncts]
    refine .bind (h.reads ha) fun _ => ?_
    simp only [ho]
    exact .pure rfl
  | @Disjunction.more ts us k ps qs h hk hs =>
    rw [disjuncts, List.append_assoc]
    refine .bind (h.reads (keyword?_of_other hk (by decide))) fun _ => ?_
    simp only [List.cons_append, keyword?_of_isKeyword hk]
    exact .bind (hs.reads ha ho) fun _ => .pure rfl

theorem Conjunction.reads {ts : List Token} {ps : List Predicate} (h : Conjunction ts ps)
    {rest : List Token} (ha : keyword? "and" rest = none) :
    (conjuncts (ts ++ rest)).Reads ps rest := by
  match h with
  | .one h =>
    rw [conjuncts]
    refine .bind h.reads fun _ => ?_
    simp only [ha]
    exact .pure rfl
  | @Conjunction.more ts us k p ps h hk hs =>
    rw [conjuncts, List.append_assoc]
    refine .bind h.reads fun _ => ?_
    simp only [List.cons_append, keyword?_of_isKeyword hk]
    exact .bind (hs.reads ha) fun _ => .pure rfl

theorem Negation.reads {ts : List Token} {p : Predicate} (h : Negation ts p)
    {rest : List Token} : (negation (ts ++ rest)).Reads p rest := by
  match h with
  | @Negation.not ts k p hk h =>
    rw [negation]
    simp only [List.cons_append, keyword?_of_isKeyword hk]
    exact .bind h.reads fun _ => .pure rfl
  | @Negation.group ts ps h =>
    rw [negation, List.cons_append, List.append_assoc]
    simp only [keyword?, Token.isKeyword, symbolAt?]
    exact .bind (h.reads rfl rfl) fun _ => .bind (.of_ok rfl) fun _ => .pure rfl
  | .relation h =>
    obtain ⟨t, us, e, rfl, ht⟩ := h.head
    have hs : t ≠ .symbol .opening := by rintro rfl; cases ht
    rw [negation]
    simp only [List.cons_append, keyword?, ht.isKeyword_not, symbolAt?, hs, Bool.false_eq_true, if_false]
    exact h.reads rest

end

section
variable {ts : List Token} {ps : List Predicate}

theorem Conjunction.of_reads (h : (conjuncts ts).Reads ps []) :
    Conjunction ts ps := by
  obtain ⟨hlt, h⟩ := h
  obtain ⟨us, he, hs⟩ := disjuncts_conjuncts_negation_eq_ok.2.1 _ _ h
  rw [List.append_nil] at he
  rwa [he]

theorem Disjunction.of_reads (h : (disjuncts ts).Reads ps []) :
    Disjunction ts ps := by
  obtain ⟨hlt, h⟩ := h
  obtain ⟨us, he, hs⟩ := disjuncts_conjuncts_negation_eq_ok.1 _ _ h
  rw [List.append_nil] at he
  rwa [he]

end

end EntityQuery.QueryText
