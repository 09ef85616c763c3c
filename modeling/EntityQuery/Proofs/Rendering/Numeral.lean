import EntityQuery.Proofs.Number.Plain
import EntityQuery.Proofs.Number.Range
import EntityQuery.Proofs.Rendering.Operand
/-! The text of numbers as lexemes. A text without an exponent is read as the number again; with
one, the scanner takes what stands in front of it for a number of its own. -/
namespace EntityQuery
open QueryText Text

def sign (negative : Bool) : List Char := if negative then ['-'] else []

namespace Number

section
variable {whole fraction : List Char}

theorem natural_append_zeros (cs : List Char) (n : Nat) :
    natural (cs ++ List.replicate n '0') = natural cs * 10 ^ n := by
  change Nat.ofDigitChars 10 (cs ++ List.replicate n '0') 0 = Nat.ofDigitChars 10 cs 0 * 10 ^ n
  rw [Nat.ofDigitChars_append, Nat.ofDigitChars_replicate_zero, Nat.mul_comm]

theorem natural_zeros_append (n : Nat) (cs : List Char) :
    natural (List.replicate n '0' ++ cs) = natural cs := by
  change Nat.ofDigitChars 10 (List.replicate n '0' ++ cs) 0 = Nat.ofDigitChars 10 cs 0
  rw [Nat.ofDigitChars_append, Nat.ofDigitChars_replicate_zero, Nat.mul_zero]

theorem ne_of_isDigit {c : Char} (h : c.isDigit = true) : c ≠ '.' ∧ c ≠ '-' := by
  constructor
  all_goals
    rintro rfl
    cases h

theorem span_digits (hw : ∀ c ∈ whole, c.isDigit = true) {r : List Char}
    (h : ∀ c ∈ r.head?, c = '.') : ((whole ++ r).head? == some '-') = false ∧
      (whole ++ r).takeWhile (· ≠ '.') = whole ∧ (whole ++ r).dropWhile (· ≠ '.') = r := by
  refine ⟨?_, span_append (fun c hc => decide_eq_true (ne_of_isDigit (hw c hc)).1) fun c hc => ?_⟩
  · cases whole with
    | nil =>
      rw [List.nil_append, beq_eq_false_iff_ne]
      intro hhead
      cases h '-' hhead
    | cons c whole => simpa using (ne_of_isDigit (hw c (.head _))).2
  · rw [h c hc]
    rfl

theorem ofLexeme?_pointed (s : Bool) (hw : ∀ c ∈ whole, c.isDigit = true)
    (hf : ∀ c ∈ fraction, c.isDigit = true) :
    ofLexeme? (sign s ++ (whole ++ '.' :: fraction)) =
      (Double.ofDecimal? s (natural (whole ++ fraction)) (-fraction.length)).map .double := by
  obtain ⟨hhead, htake, hdrop⟩ := span_digits (r := '.' :: fraction) hw (by simp)
  have hone : fraction.contains '.' = false := by
    rw [← Bool.not_eq_true, List.contains_iff_mem]
    exact fun hmem => (ne_of_isDigit (hf _ hmem)).1 rfl
  cases s with
  | true =>
    simp only [ofLexeme?, sign, if_true, List.singleton_append, List.head?_cons, BEq.rfl,
      List.tail_cons, htake, hdrop, hone, Bool.false_eq_true, if_false]
  | false =>
    simp only [ofLexeme?, sign, Bool.false_eq_true, if_false, List.nil_append, hhead, htake, hdrop,
      hone]

theorem ofLexeme?_whole (s : Bool) (hw : ∀ c ∈ whole, c.isDigit = true) :
    ofLexeme? (sign s ++ whole) =
      if IsLong (if s then -(natural whole : Int) else natural whole) then
        some (.integer (if s then -(natural whole : Int) else natural whole))
      else (Double.ofDecimal? s (natural whole) 0).map .double := by
  obtain ⟨hhead, htake, hdrop⟩ := span_digits (r := []) hw (by simp)
  rw [List.append_nil] at hhead htake hdrop
  cases s with
  | true =>
    simp only [ofLexeme?, sign, if_true, List.singleton_append, List.head?_cons, BEq.rfl,
      List.tail_cons, htake, hdrop]
  | false =>
    simp only [ofLexeme?, sign, Bool.false_eq_true, if_false, List.nil_append, hhead, htake, hdrop]

end

end Number

namespace Double
open Number

section
variable {c : Nat} {k : Int}

theorem write_positional (h : layout.plainFrom ≤ k + (Nat.toDigits 10 c).length - 1 ∧
      k + (Nat.toDigits 10 c).length - 1 < layout.plainBelow) :
    ∃ whole fraction, layout.write c k = whole ++ '.' :: fraction ∧ whole ≠ [] ∧
      (∀ x ∈ whole ++ fraction, x.isDigit = true) ∧
      (natural (whole ++ fraction) : ℚ) * 10 ^ (-fraction.length : Int) = c * 10 ^ k := by
  have hdigits : ∀ x ∈ Nat.toDigits 10 c, x.isDigit = true := isDigit_of_mem_toDigits
  have hvalue := natural_toDigits c
  have hlen : 0 < (Nat.toDigits 10 c).length := Nat.length_toDigits_pos
  have hzeros : ∀ n, ∀ x ∈ zeros n, x.isDigit = true := by
    intro n x hx
    rw [List.eq_of_mem_replicate hx]
    rfl
  unfold Layout.write
  simp only [if_pos h]
  generalize Nat.toDigits 10 c = digits at *
  split
  · rename_i hk
    have hnatural : natural (digits ++ zeros k ++ ['0']) = c * 10 ^ k.toNat * 10 ^ 1 := by
      rw [← hvalue, ← natural_append_zeros digits]
      exact natural_append_zeros (digits ++ zeros k) 1
    refine ⟨digits ++ zeros k, ['0'], by simp, by simp [← List.length_pos_iff, hlen], ?_, ?_⟩
    · intro x hx
      simp only [List.mem_append, List.mem_singleton] at hx
      obtain (hx | hx) | rfl := hx
      · exact hdigits x hx
      · exact hzeros k x hx
      · rfl
    · rw [hnatural]
      push_cast
      rw [zpow_toNat hk]
      simp
  split
  · rename_i hk hfirst
    refine ⟨_, _, rfl, ?_, ?_, ?_⟩
    · rw [← List.length_pos_iff, List.length_take]
      omega
    · rwa [List.take_append_drop]
    · rw [List.take_append_drop, hvalue, List.length_drop]
      congr 2
      omega
  · rename_i hk hfirst
    refine ⟨['0'], _, rfl, by simp, ?_, ?_⟩
    · intro x hx
      simp only [List.mem_append, List.mem_singleton] at hx
      obtain rfl | hx | hx := hx
      · rfl
      · exact hzeros _ x hx
      · exact hdigits x hx
    · have hnatural : natural (['0'] ++ (zeros (-(k + digits.length - 1) - 1) ++ digits)) = c := by
        rw [← hvalue]
        exact (natural_zeros_append 1 _).trans (natural_zeros_append _ digits)
      rw [hnatural, List.length_append, zeros, List.length_replicate]
      congr 2
      omega

theorem exists_ofDecimal? (s : Bool) (h : (c : ℚ) * 10 ^ k < 2 ^ 1023) :
    ∃ x, ofDecimal? s c k = some x := by
  have hd : 0 < (scaled 10 c k).2 := scaled_pos (by decide) c k
  rw [ofDecimal?_eq]
  refine exists_nearest? s hd ?_
  have hcast : ((scaled 10 c k).1 : ℚ) < 2 ^ 1023 * (scaled 10 c k).2 := by
    rw [scaled_value (by decide), Nat.cast_ofNat]
    exact mul_lt_mul_of_pos_right h (by exact_mod_cast hd)
  exact_mod_cast hcast

/-- A text with an exponent starts with a number, which a letter follows. -/
theorem write_exponent (h : ¬ (layout.plainFrom ≤ k + (Nat.toDigits 10 c).length - 1 ∧
      k + (Nat.toDigits 10 c).length - 1 < layout.plainBelow)) :
    ∃ d ds mark es, layout.write c k = d :: ds ++ 'e' :: mark :: es ∧ inWord mark = false ∧
      d.isDigit = true ∧ (∀ x ∈ ds, inNumber x = true) ∧
      ∀ s, ∃ n, ofLexeme? (sign s ++ d :: ds) = some n := by
  have hdigits : ∀ x ∈ Nat.toDigits 10 c, x.isDigit = true := isDigit_of_mem_toDigits
  have hvalue := natural_toDigits c
  have hlt := lt_pow_length c
  have hmark : ∀ e : Int, inWord (if e < 0 then '-' else '+') = false := by
    intro e
    split
    all_goals decide +kernel
  unfold Layout.write
  simp only [if_neg h]
  obtain ⟨d, ds, hds⟩ := exists_toDigits c
  rw [hds] at hdigits hvalue hlt ⊢
  have hd : d.isDigit = true := hdigits d (.head _)
  cases ds with
  | nil =>
    refine ⟨d, [], _, _, rfl, hmark _, hd, by simp, fun s => ?_⟩
    have hlong : IsLong (if s then -(natural [d] : Int) else natural [d]) := by
      rw [hvalue]
      unfold IsLong
      norm_num at hlt
      split
      all_goals omega
    rw [ofLexeme?_whole s (by simpa using hd), if_pos hlong]
    exact ⟨_, rfl⟩
  | cons d' ds =>
    refine ⟨d, '.' :: d' :: ds, _, _, rfl, hmark _, hd, ?_, fun s => ?_⟩
    · intro x hx
      obtain rfl | hx := List.mem_cons.1 hx
      · decide
      · simp [inNumber, hdigits x (.tail _ hx)]
    · have hwhole : ∀ x ∈ [d], x.isDigit = true := by simpa using hd
      have hfraction : ∀ x ∈ d' :: ds, x.isDigit = true := fun x hx => hdigits x (.tail _ hx)
      have hread := ofLexeme?_pointed s hwhole hfraction
      change ofLexeme? (sign s ++ d :: '.' :: d' :: ds) =
        (ofDecimal? s (natural (d :: d' :: ds)) _).map .double at hread
      have hten : (c : ℚ) * 10 ^ (-(d' :: ds).length : Int) < 10 := by
        have hcast : (c : ℚ) < 10 ^ (d' :: ds).length * 10 := by
          rw [← pow_succ]
          exact_mod_cast hlt
        rwa [zpow_neg, zpow_natCast, ← div_eq_mul_inv, div_lt_iff₀' (by positivity)]
      have hlarge : (10 : ℚ) < 2 ^ 1023 := by
        calc (10 : ℚ) < 2 ^ 4 := by norm_num
          _ ≤ 2 ^ 1023 := pow_le_pow_right₀ (by norm_num) (by decide)
      obtain ⟨x, hx⟩ := exists_ofDecimal? s (hten.trans hlarge)
      rw [hvalue, hx] at hread
      exact ⟨.double x, hread⟩

end

theorem text_eq (x : Double) : x.text = sign x.negative ++
    if x.mantissa = 0 then ['0', '.', '0'] else layout.write x.shortest.1 x.shortest.2 := by
  rfl

end Double

namespace QueryText
open Number

theorem lexeme_numeral {d : Char} {ds : List Char} {n : Number} (s : Bool) (hd : d.isDigit = true)
    (hds : ∀ x ∈ ds, inNumber x = true) (hn : ofLexeme? (sign s ++ d :: ds) = some n) :
    Lexeme (sign s ++ d :: ds) (.number n) := by
  cases s with
  | true =>
    refine .number (by simp [startsNumber, hd]) (fun x hx => ?_) hn
    obtain rfl | hx := List.mem_cons.1 hx
    · simp [inNumber, hd]
    · exact hds x hx
  | false => exact .number (by simp [startsNumber, hd]) hds hn

theorem lexeme_double {x : Double} (h : x.IsPlain) : Lexeme x.text (.number (.double x)) := by
  rw [Double.text_eq]
  by_cases hm : x.mantissa = 0
  · have hzero : x = Double.zero x.negative := by
      have hexponent : x.exponent = -1074 := x.canonical.resolve_left (by rw [hm]; decide)
      cases x
      cases hm
      cases hexponent
      rfl
    have hdigit : ∀ c ∈ ['0'], c.isDigit = true := by simp
    have hread := ofLexeme?_pointed x.negative hdigit hdigit
    rw [if_pos hm]
    refine lexeme_numeral x.negative rfl (by simp [inNumber]) (hread.trans ?_)
    conv_rhs => rw [hzero]
    rfl
  · obtain ⟨whole, fraction, htext, hne, hdigits, hvalue⟩ :=
      Double.write_positional ((Double.positional_iff hm).2 h)
    have hwhole : ∀ c ∈ whole, c.isDigit = true := fun c hc =>
      hdigits c (List.mem_append_left _ hc)
    have hfraction : ∀ c ∈ fraction, c.isDigit = true := fun c hc =>
      hdigits c (List.mem_append_right _ hc)
    have hread := ofLexeme?_pointed x.negative hwhole hfraction
    rw [Double.ofDecimal?_congr hvalue, Double.ofDecimal?_shortest hm] at hread
    rw [if_neg hm, htext]
    obtain ⟨d, ds, rfl⟩ := List.exists_cons_of_ne_nil hne
    rw [List.cons_append] at hread ⊢
    refine lexeme_numeral x.negative (hwhole d (.head _)) (fun c hc => ?_) hread
    simp only [List.mem_append, List.mem_cons] at hc
    obtain hc | rfl | hc := hc
    · simp [inNumber, hwhole c (.tail _ hc)]
    · decide
    · simp [inNumber, hfraction c hc]

/-- The text of a double that is written with an exponent is a number, a word and more. -/
theorem text_of_not_isPlain {x : Double} (h : ¬ x.IsPlain) :
    ∃ us mark es n, x.text = us ++ 'e' :: mark :: es ∧ inWord mark = false ∧
      Lexeme us (.number n) := by
  have hm : x.mantissa ≠ 0 := fun hm => h (.inl hm)
  obtain ⟨d, ds, mark, es, htext, hmark, hd, hds, hread⟩ :=
    Double.write_exponent (mt (Double.positional_iff hm).1 h)
  obtain ⟨n, hn⟩ := hread x.negative
  refine ⟨sign x.negative ++ d :: ds, mark, es, n, ?_, hmark,
    lexeme_numeral x.negative hd hds hn⟩
  rw [Double.text_eq, if_neg hm, htext, List.append_assoc]

theorem lexeme_unsigned {n : Int} (h : (Number.integer n).InRange) (hlong : ¬ IsLong n) :
    ∃ x, Lexeme (toString n).toList (.number (.double x)) := by
  have hn : ¬ n < 0 := by
    unfold IsLong at hlong
    have := h.1
    omega
  have hvalue : (n.natAbs : Int) = n := by omega
  obtain ⟨x, hx⟩ := Double.exists_nearest? (n := n.natAbs * 10 ^ 0) (d := 1) false (by decide)
    (by rw [pow_zero, Nat.mul_one, Nat.mul_one]; exact h.natAbs_lt)
  have hdigits : ∀ c ∈ Nat.toDigits 10 n.natAbs, c.isDigit = true := isDigit_of_mem_toDigits
  have hread := ofLexeme?_whole false hdigits
  rw [natural_toDigits] at hread
  simp only [Bool.false_eq_true, if_false, hvalue, if_neg hlong] at hread
  obtain ⟨d, ds, hds⟩ := exists_toDigits n.natAbs
  rw [hds] at hread hdigits
  refine ⟨x, ?_⟩
  rw [toList_toString, if_neg hn, hds]
  refine lexeme_numeral false (hdigits d (.head _))
    (fun c hc => by simp [inNumber, hdigits c (.tail _ hc)]) (hread.trans ?_)
  rw [Double.ofDecimal?, if_pos (le_refl (0 : Int))]
  exact congrArg (Option.map Number.double) hx

end QueryText

/-- The numbers whose text is read as the number: signed integers of 64 bits, and plain doubles. -/
def Number.IsPlain : Number → Prop
  | .integer n => IsLong n
  | .double x => x.IsPlain

theorem QueryText.lexeme_number {n : Number} (h : n.IsPlain) :
    Lexeme n.text.toList (.number n) := by
  cases n with
  | integer n => exact lexeme_integer h
  | double x =>
    rw [Number.text, String.toList_ofList]
    exact lexeme_double h

end EntityQuery
