import EntityQuery.Proofs.Lexing.Lexes
/-! Texts put together from words, marks and pieces that are lexed already. -/
namespace EntityQuery.QueryText
open Text

def isWord (s : String) : Bool :=
  match s.toList with
  | [] => false
  | c :: cs => startsWord c && cs.all inWord

theorem lexeme_word {s : String} (h : isWord s = true) : Lexeme s.toList (.word s) := by
  unfold isWord at h
  split at h
  · cases h
  · rename_i c cs hs
    simp only [Bool.and_eq_true, List.all_eq_true] at h
    have hlex := Lexeme.word h.1 h.2
    rwa [← hs, String.ofList_toList] at hlex

theorem reserved_words : ∀ k ∈ reserved, isWord k = true ∧ foldCase k = k := by
  have h : (reserved.all fun k => isWord k && foldCase k == k) = true := by cbv
  simpa using h

theorem lexeme_reserved {k : String} (h : k ∈ reserved) : Lexeme k.toList (.word k) :=
  lexeme_word (reserved_words k h).1

theorem isKeyword_reserved {k : String} (h : k ∈ reserved) : Token.isKeyword k (.word k) = true := by
  simp [Token.isKeyword, (reserved_words k h).2]

/-- Blanks, commas and parentheses stick to no token, and nothing sticks to commas and
parentheses. -/
structure Separated (sticks : Token → Char → Bool) : Prop where
  apart : ∀ c ∈ [' ', ',', '(', ')'], ∀ t, sticks t c = false
  marks : ∀ s ∈ [Symbol.opening, .closing, .comma], ∀ c, sticks (.symbol s) c = false

theorem separated_abuts : Separated Token.abuts := by
  constructor
  · intro c hc t
    simp only [List.mem_cons, List.not_mem_nil, or_false] at hc
    obtain rfl | rfl | rfl | rfl := hc
    all_goals
      cases t with
      | symbol s =>
        cases s with
        | comparison op => cases op <;> rfl
        | _ => rfl
      | _ => rfl
  · intro s hs c
    simp only [List.mem_cons, List.not_mem_nil, or_false] at hs
    obtain rfl | rfl | rfl := hs
    all_goals rfl

theorem separated_extends : Separated Token.extends := by
  have hle : ∀ t c, Token.abuts t c = false → t.extends c = false := by
    intro t c h
    by_contra hn
    rw [Bool.not_eq_false] at hn
    rw [Token.abuts_of_extends hn] at h
    cases h
  exact ⟨fun c hc t => hle t c (separated_abuts.apart c hc t),
    fun s hs c => hle _ c (separated_abuts.marks s hs c)⟩

section
variable {sticks : Token → Char → Bool} {rest cs us : List Char} {ts : List Token} {t : Token}

theorem Separated.loose (hs : Separated sticks) {c : Char} (hc : c ∈ [' ', ',', '(', ')'])
    (cs : List Char) : Loose sticks (c :: cs) := by
  intro x hx
  cases hx
  exact hs.apart c hc

theorem Lexes.space (h : Lexes sticks rest cs ts) : Lexes sticks rest (' ' :: cs) ts :=
  .blank (by decide) h

theorem Lexes.cons (hs : Separated sticks) (hu : Lexeme us t) (h : Lexes sticks rest cs ts) :
    Lexes sticks rest (us ++ ' ' :: cs) (t :: ts) := by
  refine .token hu (fun x hx => ?_) h.space
  cases hx
  exact hs.apart ' ' (by simp) t

theorem Lexes.mark (hs : Separated sticks) {s : Symbol} {c : Char}
    (hm : s ∈ [Symbol.opening, .closing, .comma]) (hc : s.forms = [[c]])
    (h : Lexes sticks rest cs ts) : Lexes sticks rest (c :: cs) (.symbol s :: ts) := by
  rw [← List.singleton_append]
  exact .token (lexeme_symbol_iff.2 (by simp [hc])) (fun x _ => hs.marks s hm x) h

end

end EntityQuery.QueryText
