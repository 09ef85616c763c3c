import EntityQuery.Proofs.Rendering.Operand
import EntityQuery.Proofs.Grammar.Content
import EntityQuery.Proofs.Evaluation.Condition
/-! Conditions as text: what they are read as, and that it means the same. -/
namespace EntityQuery.QueryText
open Criteria Text Evaluation

section
variable (names : List (ParameterId × String))

mutual

/-- The condition that the text of a condition states. Joins of nothing are comparisons of
constants, joins of one condition are that condition. -/
def written : Predicate → Predicate
  | .comparison op l r => .comparison op (byName names l) (byName names r)
  | .like e pattern => .like (byName names e) (byName names pattern)
  | .isNull e => .isNull (byName names e)
  | .isNotNull e => .isNotNull (byName names e)
  | .and [] => .comparison .eq (.literal (.integer 1)) (.literal (.integer 1))
  | .or [] => .comparison .eq (.literal (.integer 1)) (.literal (.integer 0))
  | .and (p :: rest) => joined .and (written p :: writtenAll rest)
  | .or (p :: rest) => joined .or (written p :: writtenAll rest)
  | .not p => .not (written p)

def writtenAll : List Predicate → List Predicate
  | [] => []
  | p :: rest => written p :: writtenAll rest

end

end

section
variable {names : List (ParameterId × String)} {P : Expression → Prop}

mutual

theorem forall_expressions_written {p : Predicate} (hv : ∀ v, P (.literal v))
    (h : ∀ e ∈ p.expressions, P (byName names e)) : ∀ e ∈ (written names p).expressions, P e := by
  match p with
  | .comparison op l r =>
    simpa [written, Predicate.expressions] using h
  | .like e pattern =>
    simpa [written, Predicate.expressions] using h
  | .isNull e | .isNotNull e =>
    simpa [written, Predicate.expressions] using h
  | .and [] | .or [] =>
    simp [written, Predicate.expressions, hv]
  | .and (p :: rest) =>
    rw [written, expressions_joined_and]
    exact forall_expressionsOf_writtenAll (p :: rest) hv h
  | .or (p :: rest) =>
    rw [written, expressions_joined_or]
    exact forall_expressionsOf_writtenAll (p :: rest) hv h
  | .not p =>
    rw [written, Predicate.expressions]
    exact forall_expressions_written (p := p) hv h

theorem forall_expressionsOf_writtenAll (ps : List Predicate) (hv : ∀ v, P (.literal v))
    (h : ∀ e ∈ Predicate.expressionsOf ps, P (byName names e)) :
    ∀ e ∈ Predicate.expressionsOf (writtenAll names ps), P e := by
  match ps with
  | [] => simp [writtenAll, Predicate.expressionsOf]
  | p :: rest =>
    rw [Predicate.expressionsOf] at h
    intro e he
    rw [writtenAll, Predicate.expressionsOf] at he
    obtain he | he := List.mem_append.1 he
    · exact forall_expressions_written (p := p) hv
        (fun x hx => h x (List.mem_append_left _ hx)) e he
    · exact forall_expressionsOf_writtenAll rest hv
        (fun x hx => h x (List.mem_append_right _ hx)) e he

end

end

section
variable {names : List (ParameterId × String)} {b b' : Bindings} {c : Combination}

theorem resolve_byName {e : Expression}
    (h : ∀ p, e.parameter? = some p → b'.value? (.named (nameOf names p.id)) = b.value? p.id ∧
      (b.value? p.id).isSome) : resolve b' c (byName names e) = resolve b c e := by
  cases e with
  | path p => rfl
  | literal v => rfl
  | parameter p =>
    obtain ⟨he, hs⟩ := h p rfl
    obtain ⟨v, hv⟩ := Option.isSome_iff_exists.1 hs
    have hv' := he.trans hv
    simp only [byName, resolve, parameterNamed, hv, hv']

mutual

/-- The text of a condition means what the condition means, where values are bound alike. -/
theorem satisfies_written {p : Predicate}
    (h : ∀ e ∈ p.expressions, resolve b' c (byName names e) = resolve b c e) :
    satisfies b' c (written names p) = satisfies b c p := by
  match p with
  | .comparison op l r =>
    have hl := h l (by simp [Predicate.expressions])
    have hr := h r (by simp [Predicate.expressions])
    simp only [written, satisfies, hl, hr]
  | .like e pattern =>
    have hl := h e (by simp [Predicate.expressions])
    have hr := h pattern (by simp [Predicate.expressions])
    simp only [written, satisfies, hl, hr]
  | .isNull e | .isNotNull e =>
    have he := h e (by simp [Predicate.expressions])
    simp only [written, satisfies, he]
  | .and [] => rfl
  | .or [] => rfl
  | .and (p :: rest) =>
    rw [written, satisfies_joined_and, satisfies]
    exact satisfiesAll_written (p :: rest) h
  | .or (p :: rest) =>
    rw [written, satisfies_joined_or, satisfies]
    exact satisfiesAny_written (p :: rest) h
  | .not p =>
    have hp := satisfies_written (p := p) h
    simp only [written, satisfies, hp]

theorem satisfiesAll_written (ps : List Predicate)
    (h : ∀ e ∈ Predicate.expressionsOf ps, resolve b' c (byName names e) = resolve b c e) :
    satisfiesAll b' c (writtenAll names ps) = satisfiesAll b c ps := by
  match ps with
  | [] => rfl
  | p :: rest =>
    have hp := satisfies_written (p := p) fun e he => h e (by simp [Predicate.expressionsOf, he])
    have hrest := satisfiesAll_written rest fun e he =>
      h e (by simp [Predicate.expressionsOf, he])
    simp only [writtenAll, satisfiesAll, hp, hrest]

theorem satisfiesAny_written (ps : List Predicate)
    (h : ∀ e ∈ Predicate.expressionsOf ps, resolve b' c (byName names e) = resolve b c e) :
    satisfiesAny b' c (writtenAll names ps) = satisfiesAny b c ps := by
  match ps with
  | [] => rfl
  | p :: rest =>
    have hp := satisfies_written (p := p) fun e he => h e (by simp [Predicate.expressionsOf, he])
    have hrest := satisfiesAny_written rest fun e he =>
      h e (by simp [Predicate.expressionsOf, he])
    simp only [writtenAll, satisfiesAny, hp, hrest]

end

end

/-- The tokens state a condition, which when `nested` may stand between `and`s. -/
def Condition : Bool → List Token → Predicate → Prop
  | true, ts, p => Negation ts p
  | false, ts, p => ∃ ds, Disjunction ts ds ∧ joined .or ds = p

def Writes (nested : Bool) (text : String) (p : Predicate) : Prop :=
  ∃ ts, Lexes Token.extends [] text.toList ts ∧ Condition nested ts p

section
variable {text : String} {p : Predicate}

theorem Writes.of_nested (h : Writes true text p) (nested : Bool) : Writes nested text p := by
  cases nested with
  | true => exact h
  | false =>
    obtain ⟨ts, hl, hn⟩ := h
    exact ⟨ts, hl, [p], .one (.one hn), rfl⟩

theorem Writes.wrap (h : Writes false text p) : Writes true ("(" ++ text ++ ")") p := by
  obtain ⟨ts, hl, ds, hd, rfl⟩ := h
  have hgroup := Negation.group hd
  refine ⟨_, ?_, hgroup⟩
  have hclose : Lexes Token.extends [] [')'] [.symbol .closing] :=
    Lexes.nil.mark separated_extends (by simp) rfl
  have hbody := (hl.follow (separated_extends.loose (by simp) [])).append hclose
  have hopen := hbody.mark separated_extends (s := .opening) (c := '(') (by simp) rfl
  simpa using hopen

theorem Writes.wrapped (h : Writes false text p) (nested : Bool) :
    Writes nested (Predicate.text.wrap nested text) p := by
  cases nested with
  | false => exact h
  | true => exact h.wrap

theorem Writes.not (h : Writes false text p) : Writes true ("not (" ++ text ++ ")") (.not p) := by
  obtain ⟨ts, hl, hn⟩ := h.wrap
  refine ⟨.word "not" :: ts, ?_, .not (isKeyword_reserved (by decide)) hn⟩
  have hnot := hl.cons separated_extends (lexeme_reserved (k := "not") (by decide))
  simpa using hnot

end

theorem lexeme_comparison (op : Comparison) :
    Lexeme op.symbol.toList (.symbol (.comparison op)) := by
  rw [lexeme_symbol_iff]
  cases op <;> simp [Comparison.symbol, Symbol.forms]

theorem lexes_three {l m r : List Char} {tl tm tr : Token} (hl : Lexeme l tl) (hm : Lexeme m tm)
    (hr : Lexeme r tr) : Lexes Token.extends [] (l ++ ' ' :: (m ++ ' ' :: r)) [tl, tm, tr] :=
  ((Lexes.single hr (by simp)).cons separated_extends hm).cons separated_extends hl

section
variable {names : List (ParameterId × String)}

theorem Writes.comparison (op : Comparison) {l r : String} {left right : Expression}
    {tl tr : Token} (hl : Lexeme l.toList tl) (hol : Operand tl left) (hr : Lexeme r.toList tr)
    (hor : Operand tr right) (nested : Bool) :
    Writes nested (l ++ " " ++ op.symbol ++ " " ++ r) (.comparison op left right) := by
  have hrelation := Relation.comparison hol op hor
  refine Writes.of_nested ⟨_, ?_, Negation.relation hrelation⟩ nested
  simpa using lexes_three hl (lexeme_comparison op) hr

theorem lexeme_one : Lexeme ['1'] (.number (.integer 1)) := lexeme_integer (n := 1) (by decide)

theorem lexeme_zero : Lexeme ['0'] (.number (.integer 0)) := lexeme_integer (n := 0) (by decide)

mutual

theorem writes_text {p : Predicate} (hn : ∀ id, isParameterName (nameOf names id) = true)
    (h : ∀ e ∈ p.expressions, Writable e) (nested : Bool) :
    Writes nested (p.text names nested) (written names p) := by
  match p with
  | .comparison op l r =>
    obtain ⟨tl, hl, hol⟩ := (h l (by simp [Predicate.expressions])).lexeme hn
    obtain ⟨tr, hr, hor⟩ := (h r (by simp [Predicate.expressions])).lexeme hn
    rw [Predicate.text]
    exact .comparison op hl hol hr hor nested
  | .like e pattern =>
    obtain ⟨tl, hl, hol⟩ := (h e (by simp [Predicate.expressions])).lexeme hn
    obtain ⟨tr, hr, hor⟩ := (h pattern (by simp [Predicate.expressions])).lexeme hn
    have hrelation := Relation.like hol (k := .word "like") (isKeyword_reserved (by decide)) hor
    refine Writes.of_nested ⟨_, ?_, Negation.relation hrelation⟩ nested
    simpa [Predicate.text] using lexes_three hl (lexeme_reserved (k := "like") (by decide)) hr
  | .isNull e =>
    obtain ⟨tl, hl, hol⟩ := (h e (by simp [Predicate.expressions])).lexeme hn
    have hrelation := Relation.isNull hol (i := .word "is") (k := .word "null") (isKeyword_reserved (by decide)) (isKeyword_reserved (by decide))
    refine Writes.of_nested ⟨_, ?_, Negation.relation hrelation⟩ nested
    simpa [Predicate.text] using lexes_three hl (lexeme_reserved (k := "is") (by decide)) (lexeme_reserved (k := "null") (by decide))
  | .isNotNull e =>
    obtain ⟨tl, hl, hol⟩ := (h e (by simp [Predicate.expressions])).lexeme hn
    have hrelation := Relation.isNotNull hol (i := .word "is") (n := .word "not")
      (k := .word "null") (isKeyword_reserved (by decide)) (isKeyword_reserved (by decide)) (isKeyword_reserved (by decide))
    refine Writes.of_nested ⟨_, ?_, Negation.relation hrelation⟩ nested
    simpa [Predicate.text] using
      (lexes_three (lexeme_reserved (k := "is") (by decide)) (lexeme_reserved (k := "not") (by decide)) (lexeme_reserved (k := "null") (by decide))).cons separated_extends hl
  | .and [] =>
    rw [Predicate.text]
    exact .comparison .eq (l := "1") (r := "1") lexeme_one (.number _) lexeme_one (.number _) nested
  | .or [] =>
    rw [Predicate.text]
    exact .comparison .eq (l := "1") (r := "0") lexeme_one (.number _) lexeme_zero (.number _) nested
  | .and [p] =>
    rw [Predicate.text]
    exact writes_text (p := p) hn (fun e he => h e (by simpa [Predicate.expressions, Predicate.expressionsOf] using he)) nested
  | .or [p] =>
    rw [Predicate.text]
    exact writes_text (p := p) hn (fun e he => h e (by simpa [Predicate.expressions, Predicate.expressionsOf] using he)) nested
  | .and (p :: q :: rest) =>
    obtain ⟨ts, hl, hc⟩ := lexes_joined_and (p :: q :: rest) (by simp) hn h
    rw [Predicate.text]
    exact Writes.wrapped ⟨ts, hl, _, .one hc, rfl⟩ nested
  | .or (p :: q :: rest) =>
    obtain ⟨ts, hl, hd⟩ := lexes_joined_or (p :: q :: rest) (by simp) hn h
    rw [Predicate.text]
    exact Writes.wrapped ⟨ts, hl, _, hd, rfl⟩ nested
  | .not p =>
    rw [Predicate.text]
    exact (writes_text (p := p) hn h false).not.of_nested nested

theorem lexes_joined_and (ps : List Predicate) (hne : ps ≠ [])
    (hn : ∀ id, isParameterName (nameOf names id) = true)
    (h : ∀ e ∈ Predicate.expressionsOf ps, Writable e) :
    ∃ ts, Lexes Token.extends [] (Predicate.joined names " and " ps).toList ts ∧
      Conjunction ts (writtenAll names ps) := by
  match ps with
  | [p] =>
    obtain ⟨ts, hl, hts⟩ := writes_text (p := p) hn
      (fun e he => h e (by simp [Predicate.expressionsOf, he])) true
    exact ⟨ts, hl, .one hts⟩
  | p :: q :: rest =>
    obtain ⟨ts, hl, hts⟩ := writes_text (p := p) hn
      (fun e he => h e (by rw [Predicate.expressionsOf]; exact List.mem_append_left _ he)) true
    obtain ⟨us, hm, hus⟩ := lexes_joined_and (q :: rest) (by simp) hn
      fun e he => h e (by rw [Predicate.expressionsOf]; exact List.mem_append_right _ he)
    refine ⟨ts ++ .word "and" :: us, ?_, .more hts (isKeyword_reserved (by decide)) hus⟩
    have hrest := (hm.cons separated_extends (lexeme_reserved (k := "and") (by decide))).space
    have hlex := (hl.follow (separated_extends.loose (by simp) _)).append hrest
    simpa [Predicate.joined] using hlex

theorem lexes_joined_or (ps : List Predicate) (hne : ps ≠ [])
    (hn : ∀ id, isParameterName (nameOf names id) = true)
    (h : ∀ e ∈ Predicate.expressionsOf ps, Writable e) :
    ∃ ts, Lexes Token.extends [] (Predicate.joined names " or " ps).toList ts ∧
      Disjunction ts (writtenAll names ps) := by
  match ps with
  | [p] =>
    obtain ⟨ts, hl, hts⟩ := writes_text (p := p) hn
      (fun e he => h e (by simp [Predicate.expressionsOf, he])) true
    exact ⟨ts, hl, .one (.one hts)⟩
  | p :: q :: rest =>
    obtain ⟨ts, hl, hts⟩ := writes_text (p := p) hn
      (fun e he => h e (by rw [Predicate.expressionsOf]; exact List.mem_append_left _ he)) true
    obtain ⟨us, hm, hus⟩ := lexes_joined_or (q :: rest) (by simp) hn
      fun e he => h e (by rw [Predicate.expressionsOf]; exact List.mem_append_right _ he)
    refine ⟨ts ++ .word "or" :: us, ?_, .more (.one hts) (isKeyword_reserved (by decide)) hus⟩
    have hrest := (hm.cons separated_extends (lexeme_reserved (k := "or") (by decide))).space
    have hlex := (hl.follow (separated_extends.loose (by simp) _)).append hrest
    simpa [Predicate.joined] using hlex

end

end

end EntityQuery.QueryText
