import EntityQuery.Proofs.Grammar.Condition
/-! The tokens of a condition: each is a connective, or writes an operand of the condition. -/
namespace EntityQuery.QueryText
open Criteria

def connectives : List String := ["and", "or", "not", "like", "is", "null", "true", "false"]

/-- The operand that a token stands for, if it stands for one, is among `es`. -/
def Token.Within (es : List Expression) : Token → Prop
  | .word s => Text.foldCase s ∈ connectives ∨ isReserved s = false ∧ .path (pathOf s) ∈ es
  | .parameter name => .parameter (parameterNamed name) ∈ es
  | _ => True

section
variable {es fs : List Expression} {t : Token} {ts : List Token} {p : Predicate}

theorem Token.Within.mono (h : t.Within es) (hs : es ⊆ fs) : t.Within fs := by
  cases t with
  | word s => exact h.imp id fun ⟨hr, hp⟩ => ⟨hr, hs hp⟩
  | parameter name => exact hs h
  | _ => trivial

theorem Token.within_of_isKeyword {k : String} (h : t.isKeyword k) (hk : k ∈ connectives) :
    t.Within es := by
  obtain ⟨s, rfl, rfl⟩ := Token.isKeyword_iff.1 h
  exact .inl hk

theorem Operand.within {e : Expression} (h : Operand t e) (he : e ∈ es) : t.Within es := by
  cases h with
  | number | quoted => trivial
  | parameter name => exact he
  | trueWord h | falseWord h | nullWord h => exact .inl (by rw [h]; decide)
  | name h => exact .inr ⟨h, he⟩

theorem Relation.within (h : Relation ts p) : ∀ t ∈ ts, t.Within p.expressions := by
  intro t ht
  cases h with
  | comparison hl op hr =>
    simp only [List.mem_cons, List.not_mem_nil, or_false] at ht
    obtain rfl | rfl | rfl := ht
    · exact hl.within (by simp [Predicate.expressions])
    · trivial
    · exact hr.within (by simp [Predicate.expressions])
  | like hl hk hr =>
    simp only [List.mem_cons, List.not_mem_nil, or_false] at ht
    obtain rfl | rfl | rfl := ht
    · exact hl.within (by simp [Predicate.expressions])
    · exact Token.within_of_isKeyword hk (by decide)
    · exact hr.within (by simp [Predicate.expressions])
  | notLike hl hn hk hr =>
    simp only [List.mem_cons, List.not_mem_nil, or_false] at ht
    obtain rfl | rfl | rfl | rfl := ht
    · exact hl.within (by simp [Predicate.expressions])
    · exact Token.within_of_isKeyword hn (by decide)
    · exact Token.within_of_isKeyword hk (by decide)
    · exact hr.within (by simp [Predicate.expressions])
  | isNull hl hi hk =>
    simp only [List.mem_cons, List.not_mem_nil, or_false] at ht
    obtain rfl | rfl | rfl := ht
    · exact hl.within (by simp [Predicate.expressions])
    · exact Token.within_of_isKeyword hi (by decide)
    · exact Token.within_of_isKeyword hk (by decide)
  | isNotNull hl hi hn hk =>
    simp only [List.mem_cons, List.not_mem_nil, or_false] at ht
    obtain rfl | rfl | rfl | rfl := ht
    · exact hl.within (by simp [Predicate.expressions])
    · exact Token.within_of_isKeyword hi (by decide)
    · exact Token.within_of_isKeyword hn (by decide)
    · exact Token.within_of_isKeyword hk (by decide)

end

@[simp] theorem expressions_joined_and (ps : List Predicate) :
    (joined .and ps).expressions = Predicate.expressionsOf ps := by
  unfold joined
  split
  · simp [Predicate.expressionsOf]
  · simp [Predicate.expressions]

@[simp] theorem expressions_joined_or (ps : List Predicate) :
    (joined .or ps).expressions = Predicate.expressionsOf ps := by
  unfold joined
  split
  · simp [Predicate.expressionsOf]
  · simp [Predicate.expressions]

mutual

theorem Disjunction.within {ts : List Token} {ps : List Predicate} (h : Disjunction ts ps) :
    ∀ t ∈ ts, t.Within (Predicate.expressionsOf ps) := by
  intro t ht
  match h with
  | .one h =>
    refine (h.within t ht).mono ?_
    simp [Predicate.expressionsOf]
  | .more h hk hs =>
    rw [List.mem_append, List.mem_cons] at ht
    obtain ht | rfl | ht := ht
    · refine (h.within t ht).mono ?_
      simp [Predicate.expressionsOf]
    · exact Token.within_of_isKeyword hk (by decide)
    · refine (hs.within t ht).mono ?_
      simp [Predicate.expressionsOf]

theorem Conjunction.within {ts : List Token} {ps : List Predicate} (h : Conjunction ts ps) :
    ∀ t ∈ ts, t.Within (Predicate.expressionsOf ps) := by
  intro t ht
  match h with
  | .one h =>
    refine (h.within t ht).mono ?_
    simp [Predicate.expressionsOf]
  | .more h hk hs =>
    rw [List.mem_append, List.mem_cons] at ht
    obtain ht | rfl | ht := ht
    · refine (h.within t ht).mono ?_
      simp [Predicate.expressionsOf]
    · exact Token.within_of_isKeyword hk (by decide)
    · refine (hs.within t ht).mono ?_
      simp [Predicate.expressionsOf]

theorem Negation.within {ts : List Token} {p : Predicate} (h : Negation ts p) :
    ∀ t ∈ ts, t.Within p.expressions := by
  intro t ht
  match h with
  | .not hk h =>
    rw [List.mem_cons] at ht
    obtain rfl | ht := ht
    · exact Token.within_of_isKeyword hk (by decide)
    · exact h.within t ht
  | .group h =>
    simp only [List.mem_cons, List.mem_append, List.not_mem_nil, or_false] at ht
    obtain rfl | ht | rfl := ht
    · trivial
    · simpa using h.within t ht
    · trivial
  | .relation h => exact h.within t ht

end

/-- The parameters that tokens write, in order and with repeats. -/
def writtenParameters (ts : List Token) : List Parameter :=
  (ts.filterMap Token.parameter?).map parameterNamed

section
variable {t : Token} {ts us : List Token} {e : Expression} {p : Predicate}

@[simp] theorem writtenParameters_nil : writtenParameters [] = [] := rfl

theorem writtenParameters_cons :
    writtenParameters (t :: ts) = (t.parameter?.map parameterNamed).toList ++ writtenParameters ts := by
  unfold writtenParameters
  rw [List.filterMap_cons]
  cases t.parameter? <;> rfl

@[simp] theorem writtenParameters_append :
    writtenParameters (ts ++ us) = writtenParameters ts ++ writtenParameters us := by
  simp [writtenParameters]

theorem writtenParameters_cons_of_none (h : t.parameter? = none) :
    writtenParameters (t :: ts) = writtenParameters ts := by
  rw [writtenParameters_cons, h]
  rfl

theorem writtenParameters_eq_nil (h : ∀ t ∈ ts, t.parameter? = none) :
    writtenParameters ts = [] := by
  rw [writtenParameters, List.filterMap_eq_nil_iff.2 h, List.map_nil]

theorem Token.parameter?_of_isKeyword {k : String} (h : t.isKeyword k) : t.parameter? = none := by
  obtain ⟨s, rfl, -⟩ := Token.isKeyword_iff.1 h
  rfl

theorem Operand.parameter? (h : Operand t e) :
    t.parameter?.map parameterNamed = e.parameter? := by
  cases h <;> rfl

theorem Relation.parameters (h : Relation ts p) :
    writtenParameters ts = p.expressions.filterMap Expression.parameter? := by
  have hcons : ∀ (e : Expression) (es : List Expression),
      (e :: es).filterMap Expression.parameter? =
        e.parameter?.toList ++ es.filterMap Expression.parameter? := by
    intro e es
    rw [List.filterMap_cons]
    cases e.parameter? <;> rfl
  have hsymbol : ∀ s, (Token.symbol s).parameter? = none := fun _ => rfl
  cases h with
  | comparison hl op hr =>
    rw [writtenParameters_cons, writtenParameters_cons_of_none (hsymbol _), writtenParameters_cons,
      hl.parameter?, hr.parameter?, Predicate.expressions, hcons, hcons]
    rfl
  | like hl hk hr =>
    rw [writtenParameters_cons, writtenParameters_cons_of_none (Token.parameter?_of_isKeyword hk),
      writtenParameters_cons, hl.parameter?, hr.parameter?, Predicate.expressions, hcons, hcons]
    rfl
  | notLike hl hn hk hr =>
    rw [writtenParameters_cons, writtenParameters_cons_of_none (Token.parameter?_of_isKeyword hn),
      writtenParameters_cons_of_none (Token.parameter?_of_isKeyword hk), writtenParameters_cons,
      hl.parameter?, hr.parameter?, Predicate.expressions, Predicate.expressions, hcons, hcons]
    rfl
  | isNull hl hi hk =>
    rw [writtenParameters_cons, writtenParameters_cons_of_none (Token.parameter?_of_isKeyword hi),
      writtenParameters_cons_of_none (Token.parameter?_of_isKeyword hk), hl.parameter?,
      Predicate.expressions, hcons]
    rfl
  | isNotNull hl hi hn hk =>
    rw [writtenParameters_cons, writtenParameters_cons_of_none (Token.parameter?_of_isKeyword hi),
      writtenParameters_cons_of_none (Token.parameter?_of_isKeyword hn),
      writtenParameters_cons_of_none (Token.parameter?_of_isKeyword hk), hl.parameter?,
      Predicate.expressions, hcons]
    rfl

end

mutual

theorem Disjunction.parameters {ts : List Token} {ps : List Predicate} (h : Disjunction ts ps) :
    writtenParameters ts = (Predicate.expressionsOf ps).filterMap Expression.parameter? := by
  match h with
  | .one h => simp [h.parameters, Predicate.expressionsOf]
  | .more h hk hs =>
    rw [writtenParameters_append, writtenParameters_cons_of_none (Token.parameter?_of_isKeyword hk),
      h.parameters, hs.parameters, Predicate.expressionsOf, List.filterMap_append,
      expressions_joined_and]

theorem Conjunction.parameters {ts : List Token} {ps : List Predicate} (h : Conjunction ts ps) :
    writtenParameters ts = (Predicate.expressionsOf ps).filterMap Expression.parameter? := by
  match h with
  | .one h => simp [h.parameters, Predicate.expressionsOf]
  | .more h hk hs =>
    rw [writtenParameters_append, writtenParameters_cons_of_none (Token.parameter?_of_isKeyword hk),
      h.parameters, hs.parameters, Predicate.expressionsOf, List.filterMap_append]

theorem Negation.parameters {ts : List Token} {p : Predicate} (h : Negation ts p) :
    writtenParameters ts = p.expressions.filterMap Expression.parameter? := by
  match h with
  | .not hk h =>
    rw [writtenParameters_cons_of_none (Token.parameter?_of_isKeyword hk), h.parameters,
      Predicate.expressions]
  | .group h =>
    rw [writtenParameters_cons_of_none rfl, writtenParameters_append, h.parameters,
      writtenParameters_cons_of_none rfl, writtenParameters_nil, List.append_nil,
      expressions_joined_or]
  | .relation h => exact h.parameters

end

end EntityQuery.QueryText
