import EntityQuery.Proofs.Lexing.Compose
import EntityQuery.Proofs.Splice.Layout
/-! What the addition of a source and a condition makes of the tokens of a text. -/
namespace EntityQuery.QueryText
open Criteria Text

def sourceTokens (new : List Token) : List Token :=
  if new = [] then [] else .symbol .comma :: new

/-- The tokens of a condition, whose first is its keyword, with another one added. -/
def conditionTokens (old new : List Token) : List Token :=
  match old with
  | [] => if new = [] then [] else .word "where" :: new
  | _ :: ts =>
    if new = [] then .word "where" :: ts
    else .word "where" :: .symbol .opening :: (ts ++ .symbol .closing :: .word "and" :: new)

section
variable {t : Token} {old new : List Token}

theorem eq_comma_or_mem_of_mem_sourceTokens (h : t ∈ sourceTokens new) :
    t = .symbol .comma ∨ t ∈ new := by
  unfold sourceTokens at h
  split at h
  · cases h
  · exact List.mem_cons.1 h

theorem mem_of_mem_conditionTokens (h : t ∈ conditionTokens old new) :
    t ∈ old ++ new ∨
      t ∈ [.word "where", .word "and", .symbol .opening, .symbol .closing] := by
  unfold conditionTokens at h
  split at h
  · split at h
    · cases h
    · obtain rfl | h := List.mem_cons.1 h
      · simp
      · exact .inl h
  · split at h
    · obtain rfl | h := List.mem_cons.1 h
      · simp
      · exact .inl (by simp [h])
    · simp only [List.mem_cons, List.mem_append] at h
      obtain rfl | rfl | h | rfl | rfl | h := h
      all_goals simp_all

theorem mem_conditionTokens_of_mem (h : t ∈ old.tail ++ new) : t ∈ conditionTokens old new := by
  cases old with
  | nil =>
    have hne : new ≠ [] := List.ne_nil_of_mem (by simpa using h)
    rw [conditionTokens, if_neg hne]
    exact .tail _ h
  | cons w ts =>
    rw [List.tail_cons] at h
    rw [conditionTokens]
    split
    · rename_i hnil
      rw [hnil, List.append_nil] at h
      exact .tail _ h
    · simp only [List.mem_cons, List.mem_append] at h ⊢
      tauto

end

theorem lexeme_where : Lexeme ['w', 'h', 'e', 'r', 'e'] (.word "where") := by
  simpa using lexeme_reserved (k := "where") (by decide)

theorem lexeme_and : Lexeme ['a', 'n', 'd'] (.word "and") := by
  simpa using lexeme_reserved (k := "and") (by decide)

section
variable {sticks : Token → Char → Bool} {rest cs source cond a b c : List Char}
  {hs ws ts us : List Token}

theorem Lexes.trim_nil_iff (h : Lexes sticks rest cs ts) : Text.trim cs = [] ↔ ts = [] := by
  rw [trim_eq_nil_iff]
  constructor
  · intro hb
    induction h with
    | nil => rfl
    | blank hc h ih => exact ih fun x hx => hb x (.tail _ hx)
    | token hu =>
      obtain ⟨c, us, rfl, -⟩ := hu.head
      have := hb c (by simp)
      rw [hu.isBlank_head] at this
      cases this
  · rintro rfl
    exact lexes_nil_iff.1 h

theorem loose_tail (hsep : Separated sticks) :
    Loose sticks (if c = [] then [] else ' ' :: Text.trim c) := by
  split
  · exact loose_nil
  · exact hsep.loose (by simp) _

theorem lexes_tail (h : Lexes sticks [] c ts) :
    Lexes sticks [] (if c = [] then [] else ' ' :: Text.trim c) ts := by
  split
  · rename_i hc
    rwa [hc] at h
  · exact (h.trim loose_nil).space

theorem loose_whereText (hsep : Separated sticks) (old : Option (List Char))
    (hr : Loose sticks rest) : Loose sticks (whereText old cs ++ rest) := by
  have hspace : ∀ xs, Loose sticks (' ' :: xs) := fun xs => hsep.loose (by simp) xs
  unfold whereText
  split
  · split
    · exact hr
    · exact hspace _
  · split
    · exact hspace _
    · exact hspace _

theorem loose_sourceText (hsep : Separated sticks) (source : List Char) (hr : Loose sticks rest) :
    Loose sticks ((if (Text.trim source).isEmpty then [] else ',' :: ' ' :: Text.trim source) ++
      rest) := by
  split
  · exact hr
  · exact hsep.loose (by simp) _

theorem lexes_sourceText (hsep : Separated sticks) (h : Lexes sticks [] source ts)
    (hr : Loose sticks rest) :
    Lexes sticks rest (if (Text.trim source).isEmpty then [] else ',' :: ' ' :: Text.trim source)
      (sourceTokens ts) := by
  have hempty : (Text.trim source).isEmpty = true ↔ ts = [] := by
    rw [List.isEmpty_iff]
    exact h.trim_nil_iff
  simp only [sourceTokens, hempty]
  split
  · exact .nil
  · exact (h.trim hr).space.mark hsep (s := .comma) (by simp) rfl

theorem Lexes.drop_where {w : Token} (h : Lexes sticks rest b (w :: ts)) (hw : w.isKeyword "where")
    (hstarts : ∀ x ∈ b.head?, isBlank x = false) : Lexes sticks rest (b.drop 5) ts := by
  obtain ⟨ls, more, rfl, hl, -, hmore⟩ := h.uncons hstarts
  obtain ⟨-, -, -, -, -, hfold, -⟩ := hl.of_isKeyword hw
  have hlength : ls.length = 5 := by
    have := congrArg String.toList hfold
    rw [foldCase, String.toList_ofList, String.toList_ofList] at this
    simpa using congrArg List.length this
  rwa [← hlength, List.drop_left]

theorem lexes_whereText (hsep : Separated sticks) (hb : Lexes sticks rest b ws)
    (hws : ∀ w ∈ ws.head?, w.isKeyword "where") (hstarts : ∀ x ∈ b.head?, isBlank x = false)
    (hcond : Lexes sticks [] cond us) (hr : Loose sticks rest) :
    Lexes sticks rest
      (whereText (if b = [] then none else some (Text.trim (b.drop 5))) (Text.trim cond))
      (conditionTokens ws us) := by
  have hnew := hcond.trim hr
  have hempty : (Text.trim cond).isEmpty = true ↔ us = [] := by
    rw [List.isEmpty_iff]
    exact hcond.trim_nil_iff
  cases ws with
  | nil =>
    obtain rfl := hb.nil_of_starts hstarts
    simp only [if_true, whereText, conditionTokens, hempty]
    split
    · exact .nil
    · exact (hnew.cons hsep lexeme_where).space
  | cons w ts =>
    have hne : b ≠ [] := by
      rintro rfl
      cases hb.eq_nil
    have hold := hb.drop_where (hws w rfl) hstarts
    simp only [if_neg hne, whereText, conditionTokens, hempty]
    split
    · exact ((hold.trim hr).cons hsep lexeme_where).space
    · have hand := (hnew.cons hsep lexeme_and).space.mark hsep (s := .closing) (by simp) rfl
      have hclosed := (hold.trim (hsep.loose (by simp) _)).append hand
      have hwhere := ((hclosed.mark hsep (s := .opening) (by simp) rfl).cons hsep lexeme_where).space
      simpa using hwhere

theorem take_sources (a b c : List Char) :
    (a ++ (b ++ c)).take ((((if b = [] then none else some a.length) : Option Nat) <|>
      if c = [] then none else some (a.length + b.length)).getD (a ++ (b ++ c)).length) = a := by
  by_cases hb : b = []
  · by_cases hc : c = []
    · simp [hb, hc]
    · simp [hb, hc]
  · simp [hb]

theorem drop_tail (a b c : List Char) : (a ++ (b ++ c)).drop (a.length + b.length) = c := by
  rw [← List.append_assoc, ← List.length_append, List.drop_left]

theorem conditionOf_append (source : Option Nat) (a b c : List Char) :
    conditionOf
      { source
        condition := if b = [] then none else some a.length
        tail := if c = [] then none else some (a.length + b.length) } (a ++ (b ++ c)) =
      if b = [] then none else some (Text.trim (b.drop 5)) := by
  have htake : (a ++ (b ++ c)).take
      (((if c = [] then none else some (a.length + b.length) : Option Nat)).getD
        (a ++ (b ++ c)).length) = a ++ b := by
    by_cases hc : c = []
    · simp [hc]
    · rw [if_neg hc, Option.getD_some, ← List.append_assoc, ← List.length_append, List.take_left]
  rw [conditionOf]
  dsimp only
  rw [htake]
  by_cases hb : b = []
  · simp [hb]
  · simp only [if_neg hb, Option.map_some]
    rw [← List.drop_drop, List.drop_left]

theorem addClauses_of_clauses {pos : Nat}
    (hof : Clauses.ofText (a ++ (b ++ c)) =
      { source := some pos
        condition := if b = [] then none else some a.length
        tail := if c = [] then none else some (a.length + b.length) }) (source cond : List Char) :
    addClauses (a ++ (b ++ c)) source cond =
      Text.trimEnd a ++
        ((if (Text.trim source).isEmpty then [] else ',' :: ' ' :: Text.trim source) ++
          (whereText (if b = [] then none else some (Text.trim (b.drop 5))) (Text.trim cond) ++
            if c = [] then [] else ' ' :: Text.trim c)) := by
  unfold QueryText.addClauses
  dsimp only
  rw [hof, conditionOf_append]
  dsimp only
  rw [take_sources, if_neg (by simp), List.append_assoc, List.append_assoc]
  by_cases hc : c = []
  · simp only [if_pos hc]
    rfl
  · simp only [if_neg hc, drop_tail]
    rfl

/-- The tokens of a text with an addition: the source goes behind the sources, the condition behind
the condition, which goes into parentheses. -/
theorem Cut.addClauses (hsep : Separated sticks) (h : Cut sticks a b c hs ws ts) {pos : Nat}
    (hof : Clauses.ofText (a ++ (b ++ c)) =
      { source := some pos
        condition := if b = [] then none else some a.length
        tail := if c = [] then none else some (a.length + b.length) })
    (hws : ∀ w ∈ ws.head?, w.isKeyword "where") {fs : List Token}
    (hsource : Lexes sticks [] source fs) (hcond : Lexes sticks [] cond us) :
    Lexes sticks [] (addClauses (a ++ (b ++ c)) source cond)
      (hs ++ (sourceTokens fs ++ (conditionTokens ws us ++ ts))) := by
  rw [addClauses_of_clauses hof]
  have htail := lexes_tail h.tail
  have hloose : Loose sticks (if c = [] then [] else ' ' :: Text.trim c) := loose_tail hsep
  have hwhere := lexes_whereText hsep (h.condition.follow hloose) hws h.condition_starts hcond hloose
  have hrest : Loose sticks (whereText (if b = [] then none else some (Text.trim (b.drop 5)))
      (Text.trim cond) ++ if c = [] then [] else ' ' :: Text.trim c) :=
    loose_whereText hsep _ hloose
  rw [← List.append_nil (if c = [] then [] else ' ' :: Text.trim c)] at hwhere
  have hsourceText := lexes_sourceText hsep hsource hrest
  rw [← List.append_nil (whereText _ _ ++ _)] at hsourceText
  have hhead := h.head.trimEnd (loose_sourceText hsep source hrest)
  rw [← List.append_nil (_ ++ (whereText _ _ ++ _))] at hhead
  exact hhead.append (hsourceText.append (hwhere.append htail))

end

end EntityQuery.QueryText
