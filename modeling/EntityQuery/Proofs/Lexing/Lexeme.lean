import Mathlib
import EntityQuery.QueryText.Scan
import EntityQuery.Text.WordChar
import EntityQuery.Proofs.Outcome
/-! Lexemes: the characters that write one token, and what may not stand right behind them. -/
namespace EntityQuery

namespace Text

def blankCodes : List Nat := [
  9, 10, 11, 12, 13, 32, 0x85, 0xA0, 0x1680, 0x2000, 0x2001, 0x2002, 0x2003, 0x2004, 0x2005, 0x2006,
  0x2007, 0x2008, 0x2009, 0x200A, 0x2028, 0x2029, 0x202F, 0x205F, 0x3000]

variable {p : Char → Bool} {c : Char}

theorem forall_isBlank (h : ∀ n ∈ blankCodes, p (Char.ofNat n) = true) (hc : isBlank c = true) :
    p c = true := by
  have hmem : c.toNat ∈ blankCodes := by
    simp only [isBlank, Bool.or_eq_true, Bool.and_eq_true, decide_eq_true_eq, beq_iff_eq] at hc
    simp only [blankCodes, List.mem_cons, List.not_mem_nil, or_false]
    omega
  have := h _ hmem
  rwa [Char.ofNat_toNat] at this

theorem forall_ascii (h : ∀ n < 128, p (Char.ofNat n) = true) (hc : c.toNat < 128) :
    p c = true := by
  have := h _ hc
  rwa [Char.ofNat_toNat] at this

theorem toNat_of_isDigit (h : c.isDigit = true) : c.toNat < 128 := by
  simp only [Char.isDigit, Bool.and_eq_true, decide_eq_true_eq] at h
  have := UInt32.le_iff_toNat_le.1 h.2
  exact Nat.lt_of_le_of_lt this (by decide)

end Text

namespace QueryText
open Criteria Text

section
variable {c : Char}

theorem word_of_isBlank (h : isBlank c = true) : inWord c = false ∧ isWordChar c = false := by
  have := forall_isBlank (p := fun c => !inWord c && !isWordChar c) (by decide +kernel) h
  simpa using this

theorem inName_of_startsWord (h : startsWord c = true) : inName c = true := by
  simp only [startsWord, Bool.or_eq_true] at h
  rcases h with h | h
  · simp [inName, isAlphanumeric, h]
  · simp [inName, h]

theorem inWord_of_inName (h : inName c = true) : inWord c = true := by simp [inWord, h]

theorem inWord_of_startsWord (h : startsWord c = true) : inWord c = true :=
  inWord_of_inName (inName_of_startsWord h)

theorem isDigit_class (h : c.isDigit = true) : startsWord c = false ∧ inName c = true := by
  have := forall_ascii (p := fun c => !c.isDigit || (!startsWord c && inName c)) (by decide +kernel)
    (toNat_of_isDigit h)
  simpa [h] using this

theorem inWord_of_inNumber (h : inNumber c = true) : inWord c = true := by
  simp only [inNumber, Bool.or_eq_true, beq_iff_eq] at h
  rcases h with h | rfl
  · exact inWord_of_inName (isDigit_class h).2
  · decide

end

def doubled (s : List Char) : List Char :=
  s.flatMap fun c => if c = '\'' then ['\'', '\''] else [c]

/-- The characters write the token when no other follows that would be read with them. -/
inductive Lexeme : List Char → Token → Prop
  | word {c : Char} {cs : List Char} (hc : startsWord c = true) (h : ∀ x ∈ cs, inWord x = true) :
    Lexeme (c :: cs) (.word (String.ofList (c :: cs)))
  | number {c : Char} {cs : List Char} {n : Number} (hc : startsNumber c cs = true)
    (h : ∀ x ∈ cs, inNumber x = true) (hn : Number.ofLexeme? (c :: cs) = some n) :
    Lexeme (c :: cs) (.number n)
  | quoted (s : List Char) : Lexeme ('\'' :: (doubled s ++ ['\''])) (.quoted (String.ofList s))
  | parameter {cs : List Char} (hne : cs ≠ []) (h : ∀ x ∈ cs, inName x = true) :
    Lexeme (':' :: cs) (.parameter (String.ofList cs))
  | symbol {c : Char} {cs : List Char} {s : Symbol}
    (hs : ∃ h, symbol? c cs = some ⟨s, [], h⟩) : Lexeme (c :: cs) (.symbol s)

/-- Whether a character right behind a token would be read as part of it. -/
def Token.extends : Token → Char → Bool
  | .word _, c => inWord c
  | .number _, c => inNumber c
  | .quoted _, c => c == '\''
  | .parameter _, c => inName c
  | .symbol (.comparison .lt), c => c == '>' || c == '='
  | .symbol (.comparison .gt), c => c == '='
  | .symbol _, _ => false

/-- The same, or a letter or underscore right behind a number. -/
def Token.abuts : Token → Char → Bool
  | .number _, c => inNumber c || startsWord c
  | t, c => t.extends c

theorem Token.abuts_of_extends {t : Token} {c : Char} (h : t.extends c = true) :
    t.abuts c = true := by
  cases t with
  | number n => exact Bool.or_eq_true_iff.2 (.inl h)
  | _ => exact h

section
variable {cs us rest : List Char} {c : Char} {t : Token}

theorem literalBody_doubled (s : List Char) (h : rest.head? ≠ some '\'') :
    literalBody (doubled s ++ '\'' :: rest) = some (s, rest) := by
  induction s with
  | nil =>
    cases rest with
    | nil => rfl
    | cons c rest =>
      have hc : c ≠ '\'' := fun he => h (by simp [he])
      simp [doubled, literalBody, hc]
  | cons c s ih =>
    by_cases hc : c = '\''
    · subst hc
      simp only [doubled, List.flatMap_cons, if_true] at ih ⊢
      simp only [List.cons_append, List.nil_append, literalBody, ih, Option.map_some]
    · simp only [doubled, List.flatMap_cons, hc, if_false] at ih ⊢
      simp only [List.cons_append, List.nil_append]
      rw [literalBody, ih]
      · rfl
      · exact fun _ h _ => hc h
      · exact fun h => hc h

theorem literalBody_eq_some {s : List Char} (h : literalBody cs = some (s, rest)) :
    cs = doubled s ++ '\'' :: rest ∧ rest.head? ≠ some '\'' := by
  fun_induction literalBody cs generalizing s with
  | case1 => simp at h
  | case2 more ih =>
    obtain ⟨⟨b, r⟩, hb, he⟩ := Option.map_eq_some_iff.1 h
    cases he
    obtain ⟨hm, hr⟩ := ih hb
    exact ⟨by simp [doubled] at hm ⊢; exact hm, hr⟩
  | case3 more hq =>
    cases h
    refine ⟨rfl, fun he => ?_⟩
    cases rest with
    | nil => cases he
    | cons c rest => exact hq rest (by simp at he; simp [he])
  | case4 c more hq hc ih =>
    obtain ⟨⟨b, r⟩, hb, he⟩ := Option.map_eq_some_iff.1 h
    cases he
    obtain ⟨hm, hr⟩ := ih hb
    have hne : c ≠ '\'' := fun he => hc he
    exact ⟨by simp [doubled, hne] at hm ⊢; exact hm, hr⟩

theorem symbol?_eq_some {r : Reading Symbol (c :: cs)} (h : symbol? c cs = some r) :
    ∃ us, cs = us ++ r.rest ∧ Lexeme (c :: us) (.symbol r.value) ∧
      ∀ x ∈ r.rest.head?, Token.extends (.symbol r.value) x = false := by
  unfold symbol? at h
  split at h
  all_goals cases h
  case h_1 | h_2 | h_3 | h_4 => exact ⟨[_], rfl, .symbol ⟨_, rfl⟩, by simp [Token.extends]⟩
  case h_5 | h_6 | h_7 | h_8 => exact ⟨[], rfl, .symbol ⟨_, rfl⟩, by simp [Token.extends]⟩
  case h_9 h₁ _ h₂ =>
    refine ⟨[], rfl, .symbol ⟨_, rfl⟩, fun x hx => ?_⟩
    obtain ⟨more, rfl⟩ := List.head?_eq_some_iff.1 hx
    simp only [Token.extends, Bool.or_eq_false_iff, beq_eq_false_iff_ne]
    refine ⟨fun he => ?_, fun he => h₂ more (he ▸ rfl)⟩
    subst he
    simp_all
  case h_10 h₁ =>
    refine ⟨[], rfl, .symbol ⟨_, rfl⟩, fun x hx => ?_⟩
    obtain ⟨more, rfl⟩ := List.head?_eq_some_iff.1 hx
    simp only [Token.extends, beq_eq_false_iff_ne]
    exact fun he => h₁ more (he ▸ rfl)

theorem symbol?_append {s : Symbol} (h : ∃ h, symbol? c us = some ⟨s, [], h⟩)
    (hf : ∀ x ∈ rest.head?, Token.extends (.symbol s) x = false) :
    ∃ h, symbol? c (us ++ rest) = some ⟨s, rest, h⟩ := by
  obtain ⟨hlt, h⟩ := h
  unfold symbol? at h
  split at h
  all_goals cases h
  case h_1 | h_2 | h_3 | h_4 | h_5 | h_6 | h_7 | h_8 => exact ⟨by simp, rfl⟩
  case h_9 =>
    cases rest with
    | nil => exact ⟨by simp, rfl⟩
    | cons x rest =>
      have := hf x rfl
      simp only [Token.extends, Bool.or_eq_false_iff, beq_eq_false_iff_ne] at this
      exact ⟨by simp, by simp [symbol?, this]⟩
  case h_10 =>
    cases rest with
    | nil => exact ⟨by simp, rfl⟩
    | cons x rest =>
      have := hf x rfl
      simp only [Token.extends, beq_eq_false_iff_ne] at this
      exact ⟨by simp, by simp [symbol?, this]⟩

theorem class_of_symbol? {r : Reading Symbol (c :: cs)} (h : symbol? c cs = some r) :
    startsWord c = false ∧ startsNumber c cs = false ∧ c ≠ '\'' ∧ c ≠ ':' := by
  unfold symbol? at h
  split at h
  all_goals cases h
  all_goals exact ⟨by decide +kernel, rfl, by decide, by decide⟩

theorem span_append {p : Char → Bool} (h : ∀ x ∈ us, p x = true)
    (hf : ∀ x ∈ rest.head?, p x = false) :
    (us ++ rest).takeWhile p = us ∧ (us ++ rest).dropWhile p = rest := by
  rw [List.takeWhile_append_of_pos h, List.dropWhile_append_of_pos h]
  cases rest with
  | nil => simp
  | cons x rest => simp [hf x rfl]

theorem head?_dropWhile {p : Char → Bool} : ∀ x ∈ (cs.dropWhile p).head?, p x = false := by
  intro x hx
  have := List.head?_dropWhile_not p cs
  rw [hx] at this
  simpa using this

theorem tokenAt_eq_ok {r : Reading Token (c :: cs)} (h : tokenAt c cs = .ok r) :
    ∃ us, cs = us ++ r.rest ∧ Lexeme (c :: us) r.value ∧
      ∀ x ∈ r.rest.head?, r.value.extends x = false := by
  unfold tokenAt at h
  split at h
  · cases h
    exact ⟨cs.takeWhile inWord, List.takeWhile_append_dropWhile.symm,
      .word ‹_› (fun x hx => List.mem_takeWhile_imp hx), head?_dropWhile⟩
  split at h
  · rename_i hs
    split at h
    · cases h
      refine ⟨cs.takeWhile inNumber, List.takeWhile_append_dropWhile.symm,
        .number ?_ (fun x hx => List.mem_takeWhile_imp hx) ‹_›, head?_dropWhile⟩
      -- The digit behind a sign is in the lexeme.
      cases cs with
      | nil => exact hs
      | cons d more =>
        by_cases hd : d.isDigit = true
        · simpa [startsNumber, inNumber, hd] using hs
        · simp_all [startsNumber]
    · cases h
  split at h
  · subst c
    split at h
    · cases h
      obtain ⟨hcs, hr⟩ := literalBody_eq_some ‹_›
      refine ⟨doubled _ ++ ['\''], by simpa using hcs, .quoted _, fun x hx => ?_⟩
      exact beq_eq_false_iff_ne.2 fun he => hr (he ▸ hx)
    · cases h
  split at h
  · subst c
    split at h
    · cases h
    · rename_i hne
      cases h
      exact ⟨cs.takeWhile inName, List.takeWhile_append_dropWhile.symm,
        .parameter (by simpa using hne) (fun x hx => List.mem_takeWhile_imp hx), head?_dropWhile⟩
  · split at h
    · cases h
      exact symbol?_eq_some ‹_›
    · cases h

theorem Lexeme.tokenAt (h : Lexeme (c :: us) t) (hf : ∀ x ∈ rest.head?, t.extends x = false) :
    ∃ h, QueryText.tokenAt c (us ++ rest) = .ok ⟨t, rest, h⟩ := by
  have hlt : rest.length < (c :: (us ++ rest)).length := by
    simp only [List.length_cons, List.length_append]
    omega
  refine ⟨hlt, ?_⟩
  cases h with
  | word hc h =>
    obtain ⟨ht, hd⟩ := span_append h hf
    simp [QueryText.tokenAt, hc, ht, hd]
  | number hc h hn =>
    obtain ⟨ht, hd⟩ := span_append h hf
    have hs : startsNumber c (us ++ rest) = true := by
      cases us with
      | nil => simp_all [startsNumber]
      | cons d us => simpa [startsNumber] using hc
    have hw : startsWord c = false := by
      simp only [startsNumber, Bool.or_eq_true, Bool.and_eq_true, beq_iff_eq] at hc
      rcases hc with hc | ⟨rfl, -⟩
      · exact (isDigit_class hc).1
      · decide
    simp [QueryText.tokenAt, hw, hs, ht, hd, hn]
  | quoted s =>
    have hl : literalBody (doubled s ++ ['\''] ++ rest) = some (s, rest) := by
      rw [List.append_assoc]
      refine literalBody_doubled s fun he => ?_
      exact absurd (hf _ he) (by simp [Token.extends])
    have hw : startsWord '\'' = false := by decide +kernel
    have hn : startsNumber '\'' (doubled s ++ ['\''] ++ rest) = false := rfl
    unfold QueryText.tokenAt
    rw [if_neg (by rw [hw]; decide), if_neg (by rw [hn]; decide), if_pos rfl]
    split
    · rename_i hb
      rw [hl] at hb
      cases hb
      rfl
    · rename_i hb
      rw [hl] at hb
      cases hb
  | parameter hne h =>
    obtain ⟨ht, hd⟩ := span_append h hf
    have hq : startsWord ':' = false ∧ startsNumber ':' (us ++ rest) = false :=
      ⟨by decide +kernel, rfl⟩
    simp [QueryText.tokenAt, hq, ht, hd, hne]
  | symbol hs =>
    obtain ⟨h, hs⟩ := symbol?_append hs hf
    obtain ⟨hw, hn, hq, hc⟩ := class_of_symbol? hs
    simp [QueryText.tokenAt, hw, hn, hq, hc, hs, Reading.map]

def Symbol.forms : Symbol → List (List Char)
  | .opening => [['(']]
  | .closing => [[')']]
  | .comma => [[',']]
  | .comparison .eq => [['=']]
  | .comparison .ne => [['<', '>'], ['!', '=']]
  | .comparison .gt => [['>']]
  | .comparison .ge => [['>', '=']]
  | .comparison .lt => [['<']]
  | .comparison .le => [['<', '=']]

theorem lexeme_symbol_iff {s : Symbol} : Lexeme us (.symbol s) ↔ us ∈ s.forms := by
  constructor
  · intro h
    cases h with
    | symbol hs =>
      obtain ⟨hlt, hs⟩ := hs
      unfold symbol? at hs
      split at hs
      all_goals cases hs
      all_goals simp [Symbol.forms]
  · intro h
    cases s with
    | opening | closing | comma =>
      obtain rfl := List.mem_singleton.1 h
      exact .symbol ⟨by simp, rfl⟩
    | comparison op =>
      cases op with
      | ne =>
        obtain rfl | rfl : us = ['<', '>'] ∨ us = ['!', '='] := by simpa [Symbol.forms] using h
        · exact .symbol ⟨by simp, rfl⟩
        · exact .symbol ⟨by simp, rfl⟩
      | _ =>
        obtain rfl := List.mem_singleton.1 h
        exact .symbol ⟨by simp, rfl⟩

def punctuation : List Char := ['-', '\'', ':', '<', '!', '>', '(', ')', ',', '=']

theorem Lexeme.head (h : Lexeme us t) :
    ∃ c cs, us = c :: cs ∧ (inWord c = true ∨ c ∈ punctuation) := by
  cases h with
  | @word c cs hc => exact ⟨c, cs, rfl, .inl (inWord_of_startsWord hc)⟩
  | @number c cs n hc =>
    simp only [startsNumber, Bool.or_eq_true, Bool.and_eq_true, beq_iff_eq] at hc
    rcases hc with hc | ⟨rfl, -⟩
    · exact ⟨c, cs, rfl, .inl (inWord_of_inName (isDigit_class hc).2)⟩
    · exact ⟨_, _, rfl, .inr (by decide)⟩
  | quoted s => exact ⟨_, _, rfl, .inr (by decide)⟩
  | parameter hne h => exact ⟨_, _, rfl, .inr (by decide)⟩
  | @symbol c cs s hs =>
    refine ⟨c, cs, rfl, .inr ?_⟩
    obtain ⟨hlt, hs⟩ := hs
    unfold symbol? at hs
    split at hs
    all_goals cases hs
    all_goals decide

theorem Lexeme.isBlank_head (h : Lexeme (c :: us) t) : isBlank c = false := by
  obtain ⟨x, xs, he, hx⟩ := h.head
  cases he
  by_contra hb
  rw [Bool.not_eq_false] at hb
  rcases hx with hx | hx
  · simp [(word_of_isBlank hb).1] at hx
  · simp only [punctuation, List.mem_cons, List.not_mem_nil, or_false] at hx
    obtain rfl | rfl | rfl | rfl | rfl | rfl | rfl | rfl | rfl | rfl := hx
    all_goals cases hb

theorem not_isBlank_of_inWord (h : inWord c = true) : isBlank c = false := by
  by_contra hb
  rw [Bool.not_eq_false] at hb
  simp [(word_of_isBlank hb).1] at h

theorem Lexeme.isBlank_last (h : Lexeme us t) : ∀ c ∈ us.getLast?, isBlank c = false := by
  intro c hc
  have hmem : c ∈ us := List.mem_of_getLast? hc
  cases h with
  | word hw h =>
    rcases List.mem_cons.1 hmem with rfl | hm
    · exact not_isBlank_of_inWord (inWord_of_startsWord hw)
    · exact not_isBlank_of_inWord (h c hm)
  | number hs h hn =>
    rcases List.mem_cons.1 hmem with rfl | hm
    · exact (Lexeme.number hs h hn).isBlank_head
    · exact not_isBlank_of_inWord (inWord_of_inNumber (h c hm))
  | quoted s =>
    rw [← List.cons_append, List.getLast?_append_of_ne_nil _ (by simp)] at hc
    cases hc
    rfl
  | parameter hne h =>
    rcases List.mem_cons.1 hmem with rfl | hm
    · rfl
    · exact not_isBlank_of_inWord (inWord_of_inName (h c hm))
  | symbol hs =>
    obtain ⟨hlt, hs⟩ := hs
    unfold symbol? at hs
    split at hs
    all_goals cases hs
    all_goals cases hc; rfl

end

end QueryText

end EntityQuery
