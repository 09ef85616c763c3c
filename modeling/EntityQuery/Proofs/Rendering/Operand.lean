import EntityQuery.Criteria.Render
import EntityQuery.Proofs.Lexing.Compose
import EntityQuery.Proofs.Grammar.Statement
/-! Operands as text. Each is a lexeme of a token that writes the operand again, but for parameters,
which the text knows by name only. -/
namespace EntityQuery
open Criteria QueryText Text

namespace Number

theorem natural_toDigits (n : Nat) : natural (Nat.toDigits 10 n) = n :=
  Nat.ofDigitChars_ten_toDigits

theorem isDigit_of_mem_toDigits {n : Nat} : ∀ c ∈ Nat.toDigits 10 n, c.isDigit = true :=
  fun _ hc => Nat.isDigit_of_mem_toDigits (by decide) (by decide) hc

theorem span_toDigits (n : Nat) :
    (Nat.toDigits 10 n).takeWhile (· ≠ '.') = Nat.toDigits 10 n ∧
      (Nat.toDigits 10 n).dropWhile (· ≠ '.') = [] := by
  have h : ∀ c ∈ Nat.toDigits 10 n, (decide (c ≠ '.')) = true := by
    intro c hc
    have := isDigit_of_mem_toDigits c hc
    rw [decide_eq_true_eq]
    rintro rfl
    cases this
  exact ⟨List.takeWhile_eq_self_iff.2 h, List.dropWhile_eq_nil_iff.2 h⟩

theorem toList_toString (n : Int) :
    (toString n).toList = (if n < 0 then ['-'] else []) ++ Nat.toDigits 10 n.natAbs := by
  cases n with
  | ofNat n =>
    have hn : ¬ Int.ofNat n < 0 := by simp
    rw [if_neg hn]
    exact Nat.toList_repr
  | negSucc n =>
    rw [if_pos (Int.negSucc_lt_zero n)]
    show ("-" ++ Nat.repr (n + 1)).toList = _
    rw [String.toList_append, Nat.toList_repr]
    rfl

theorem exists_toDigits (n : Nat) : ∃ c cs, Nat.toDigits 10 n = c :: cs := by
  have := Nat.toDigits_ne_nil (n := n) (b := 10)
  exact List.exists_cons_of_ne_nil this

theorem ofLexeme?_toString {n : Int} (h : IsLong n) :
    ofLexeme? (toString n).toList = some (.integer n) := by
  obtain ⟨htake, hdrop⟩ := span_toDigits n.natAbs
  rw [toList_toString]
  by_cases hn : n < 0
  · have hvalue : -(n.natAbs : Int) = n := by omega
    simp only [ofLexeme?, if_pos hn, List.cons_append, List.nil_append, List.head?_cons,
      BEq.rfl, if_true, List.tail_cons, htake, hdrop, natural_toDigits, hvalue, if_pos h]
  · have hvalue : (n.natAbs : Int) = n := by omega
    have hhead : ((Nat.toDigits 10 n.natAbs).head? == some '-') = false := by
      obtain ⟨c, cs, hc⟩ := exists_toDigits n.natAbs
      have hd := isDigit_of_mem_toDigits (n := n.natAbs) c (by simp [hc])
      have hne : c ≠ '-' := by
        rintro rfl
        cases hd
      simpa [hc] using hne
    simp only [ofLexeme?, if_neg hn, List.nil_append, hhead, htake, hdrop, natural_toDigits,
      hvalue, if_pos h, Bool.false_eq_true, if_false]

end Number

namespace QueryText
variable {c : Char} {s : String}

theorem lexeme_integer {n : Int} (h : Number.IsLong n) :
    Lexeme (toString n).toList (.number (.integer n)) := by
  have hvalue := Number.ofLexeme?_toString h
  rw [Number.toList_toString] at hvalue ⊢
  obtain ⟨d, ds, hds⟩ := Number.exists_toDigits n.natAbs
  have hdigits := Number.isDigit_of_mem_toDigits (n := n.natAbs)
  rw [hds] at hvalue hdigits ⊢
  have hd : d.isDigit = true := hdigits d (.head _)
  by_cases hn : n < 0
  · rw [if_pos hn] at hvalue ⊢
    exact .number (by simp [startsNumber, hd]) (fun x hx => by simp [inNumber, hdigits x hx]) hvalue
  · rw [if_neg hn] at hvalue ⊢
    exact .number (by simp [startsNumber, hd]) (fun x hx => by simp [inNumber, hdigits x (.tail _ hx)])
      hvalue

def inIdentifier (c : Char) : Bool := c.isAlphanum || c == '_'

def isIdentifier (s : String) : Bool :=
  match s.toList with
  | [] => false
  | c :: cs => (c.isAlpha || c == '_') && cs.all inIdentifier

theorem toNat_of_inIdentifier (h : inIdentifier c = true) : c.toNat < 128 := by
  simp only [inIdentifier, Char.isAlphanum, Char.isAlpha, Char.isUpper, Char.isLower, Char.isDigit,
    Bool.or_eq_true, Bool.and_eq_true, decide_eq_true_eq, beq_iff_eq] at h
  obtain ((⟨-, h⟩ | ⟨-, h⟩) | ⟨-, h⟩) | rfl := h
  · exact Nat.lt_of_le_of_lt (UInt32.le_iff_toNat_le.1 h) (by decide)
  · exact Nat.lt_of_le_of_lt (UInt32.le_iff_toNat_le.1 h) (by decide)
  · exact Nat.lt_of_le_of_lt (UInt32.le_iff_toNat_le.1 h) (by decide)
  · decide

theorem class_of_inIdentifier (h : inIdentifier c = true) : inName c = true ∧ c ≠ '.' := by
  have := forall_ascii (p := fun c => !inIdentifier c || (inName c && c ≠ '.')) (by decide +kernel)
    (toNat_of_inIdentifier h)
  simpa [h] using this

theorem isIdentifier_iff : isIdentifier s = true ↔
    ∃ c cs, s.toList = c :: cs ∧ (c.isAlpha = true ∨ c = '_') ∧ ∀ x ∈ cs, inIdentifier x = true := by
  unfold isIdentifier
  split
  · simp_all
  · simp_all

theorem startsWord_of_isAlpha (h : c.isAlpha = true ∨ c = '_') :
    startsWord c = true ∧ inIdentifier c = true := by
  obtain h | rfl := h
  · have hin : inIdentifier c = true := by simp [inIdentifier, Char.isAlphanum, h]
    have hw : startsWord c = true := by
      simp [startsWord, isAlphabetic, toNat_of_inIdentifier hin, h]
    exact ⟨hw, hin⟩
  · exact ⟨by decide, by decide⟩

theorem inIdentifier_of_isIdentifier (h : isIdentifier s = true) :
    ∀ c ∈ s.toList, inIdentifier c = true := by
  obtain ⟨c, cs, he, hc, hcs⟩ := isIdentifier_iff.1 h
  intro x hx
  rw [he] at hx
  obtain rfl | hx := List.mem_cons.1 hx
  · exact (startsWord_of_isAlpha hc).2
  · exact hcs x hx

theorem hasDot_of_isIdentifier (h : isIdentifier s = true) : hasDot s = false := by
  by_contra hn
  have hmem : '.' ∈ s.toList := by simpa [hasDot] using hn
  exact (class_of_inIdentifier (inIdentifier_of_isIdentifier h _ hmem)).2 rfl

theorem lexeme_identifier (h : isIdentifier s = true) (more : List Char)
    (hmore : ∀ c ∈ more, inWord c = true) :
    Lexeme (s.toList ++ more) (.word (String.ofList (s.toList ++ more))) := by
  obtain ⟨c, cs, he, hc, hcs⟩ := isIdentifier_iff.1 h
  rw [he]
  refine .word (startsWord_of_isAlpha hc).1 fun x hx => ?_
  obtain hx | hx := List.mem_append.1 hx
  · exact inWord_of_inName (class_of_inIdentifier (hcs x hx)).1
  · exact hmore x hx

structure Name (s : String) : Prop where
  identifier : isIdentifier s = true
  free : isReserved s = false

theorem Name.path {p : Path} (h : Name p.aliasName)
    (ha : ∀ a ∈ p.attr, ∀ c ∈ a.toList, inIdentifier c = true ∨ c = '.') :
    Lexeme p.text.toList (.word p.text) ∧ isReserved p.text = false ∧ pathOf p.text = p := by
  obtain ⟨a, attr⟩ := p
  have hdot : ∀ c ∈ a.toList, decide (c ≠ '.') = true := by
    intro c hc
    rw [decide_eq_true_eq]
    rintro rfl
    have := hasDot_of_isIdentifier h.identifier
    simp [hasDot, hc] at this
  cases attr with
  | none =>
    have hlex := lexeme_identifier h.identifier [] (by simp)
    rw [List.append_nil, String.ofList_toList] at hlex
    refine ⟨hlex, h.free, ?_⟩
    unfold pathOf
    simp only [Path.text]
    rw [List.dropWhile_eq_nil_iff.2 hdot]
  | some attr =>
    have htext : (Path.text ⟨a, some attr⟩).toList = a.toList ++ '.' :: attr.toList := by
      simp [Path.text]
    have hlex := lexeme_identifier h.identifier ('.' :: attr.toList) (by
      intro c hc
      obtain rfl | hc := List.mem_cons.1 hc
      · decide
      obtain hin | rfl := ha attr rfl c hc
      · exact inWord_of_inName (class_of_inIdentifier hin).1
      · decide)
    rw [← htext, String.ofList_toList] at hlex
    refine ⟨hlex, isReserved_of_hasDot (by simp [hasDot, htext]), ?_⟩
    unfold pathOf
    dsimp only
    rw [htext, List.dropWhile_append_of_pos hdot, List.takeWhile_append_of_pos hdot]
    simp

inductive Literal : Value → Prop
  | null : Literal .null
  | bool (b : Bool) : Literal (.bool b)
  | integer {n : Int} (h : Number.IsLong n) : Literal (.number (.integer n))
  | string (s : String) : Literal (.string s)

theorem Literal.lexeme {v : Value} (h : Literal v) :
    ∃ t, Lexeme (literalText v).toList t ∧ Operand t (.literal v) := by
  cases h with
  | null => exact ⟨_, .word (by decide) (by simp; decide +kernel), .nullWord (by cbv)⟩
  | bool b =>
    cases b with
    | true => exact ⟨_, .word (by decide) (by simp; decide +kernel), .trueWord (by cbv)⟩
    | false => exact ⟨_, .word (by decide) (by simp; decide +kernel), .falseWord (by cbv)⟩
  | integer h => exact ⟨_, lexeme_integer h, .number _⟩
  | string s =>
    have htext : (literalText (.string s)).toList = '\'' :: (doubled s.toList ++ ['\'']) := by
      simp [literalText, quoted, doubled]
    have hlex := Lexeme.quoted s.toList
    rw [String.ofList_toList] at hlex
    exact ⟨_, htext ▸ hlex, .quoted s⟩

def isParameterName (s : String) : Bool := !s.toList.isEmpty && s.toList.all inIdentifier

theorem lexeme_parameter (h : isParameterName s = true) :
    Lexeme (":" ++ s).toList (.parameter s) := by
  simp only [isParameterName, Bool.not_eq_true', List.isEmpty_eq_false_iff, Bool.and_eq_true,
    List.all_eq_true] at h
  obtain ⟨hne, hs⟩ := h
  have hlex : Lexeme (':' :: s.toList) (.parameter (String.ofList s.toList)) :=
    .parameter hne fun x hx => (class_of_inIdentifier (hs x hx)).1
  rw [String.ofList_toList] at hlex
  rw [String.toList_append]
  exact hlex

/-- The operand as its text writes it: parameters go by name. -/
def byName (names : List (ParameterId × String)) : Expression → Expression
  | .parameter p => .parameter (parameterNamed (nameOf names p.id))
  | e => e

inductive Writable : Expression → Prop
  | path {p : Path} (h : Name p.aliasName)
    (ha : ∀ a ∈ p.attr, ∀ c ∈ a.toList, inIdentifier c = true ∨ c = '.') : Writable (.path p)
  | literal {v : Value} (h : Literal v) : Writable (.literal v)
  | parameter (p : Parameter) : Writable (.parameter p)

theorem Writable.lexeme {names : List (ParameterId × String)} {e : Expression} (h : Writable e)
    (hn : ∀ id, isParameterName (nameOf names id) = true) :
    ∃ t, Lexeme (e.text names).toList t ∧ Operand t (byName names e) := by
  cases h with
  | path h ha =>
    obtain ⟨hlex, hfree, hpath⟩ := h.path ha
    refine ⟨_, hlex, ?_⟩
    have hop := Operand.name hfree
    rw [hpath] at hop
    exact hop
  | literal h => exact h.lexeme
  | parameter p => exact ⟨_, lexeme_parameter (hn p.id), .parameter _⟩

end QueryText

end EntityQuery
