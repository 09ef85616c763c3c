import EntityQuery.Proofs.Lexing.Lexeme
/-! Texts that are made of lexemes and blanks. The scanner finds exactly the tokens of such texts,
and such texts can be cut between tokens, put together and trimmed. -/
namespace EntityQuery.QueryText
open Text

/-- The characters in front of `rest` are blanks and the lexemes of the tokens; none of these has a
character that `sticks` to it right behind. -/
inductive Lexes (sticks : Token → Char → Bool) (rest : List Char) :
    List Char → List Token → Prop
  | nil : Lexes sticks rest [] []
  | blank {c : Char} {cs : List Char} {ts : List Token} (hc : isBlank c = true)
    (h : Lexes sticks rest cs ts) : Lexes sticks rest (c :: cs) ts
  | token {us cs : List Char} {t : Token} {ts : List Token} (hu : Lexeme us t)
    (hf : ∀ x ∈ (cs ++ rest).head?, sticks t x = false) (h : Lexes sticks rest cs ts) :
    Lexes sticks rest (us ++ cs) (t :: ts)

theorem scan_eq_ok_iff {cs : List Char} {ts : List Token} :
    scan cs = .ok ts ↔ Lexes Token.extends [] cs ts := by
  constructor
  · intro h
    induction cs using scan.induct generalizing ts with
    | case1 =>
      rw [scan] at h
      cases h
      exact .nil
    | case2 c cs hc ih =>
      rw [scan, if_pos hc] at h
      exact .blank hc (ih h)
    | case3 c cs hc ih =>
      rw [scan, if_neg hc] at h
      obtain ⟨t, ht, h⟩ := bind_eq_ok_iff.1 h
      obtain ⟨more, hm, h⟩ := bind_eq_ok_iff.1 h
      cases h
      obtain ⟨us, he, hl, hf⟩ := tokenAt_eq_ok ht
      have := Lexes.token hl (by rwa [List.append_nil]) (ih t hm)
      rwa [List.cons_append, ← he] at this
  · intro h
    induction h with
    | nil => rw [scan]
    | blank hc h ih => rw [scan, if_pos hc, ih]
    | @token us cs t ts hu hf h ih =>
      obtain ⟨c, us, rfl, -⟩ := hu.head
      rw [List.append_nil] at hf
      obtain ⟨hlt, ht⟩ := hu.tokenAt hf
      rw [List.cons_append, scan, if_neg (by rw [hu.isBlank_head]; decide), ht]
      simp only [ok_bind, ih, pure_eq_ok]

/-- The tokens of a text, in front of another, are scanned first. -/
theorem Lexes.scan_append {rest cs : List Char} {ts : List Token}
    (h : Lexes Token.extends rest cs ts) :
    scan (cs ++ rest) = (scan rest).map (ts ++ ·) := by
  induction h with
  | nil =>
    rw [List.nil_append]
    cases scan rest <;> rfl
  | blank hc h ih => rw [List.cons_append, scan, if_pos hc, ih]
  | @token us cs t ts hu hf h ih =>
    obtain ⟨c, us, rfl, -⟩ := hu.head
    obtain ⟨hlt, ht⟩ := hu.tokenAt hf
    rw [List.append_assoc, List.cons_append, scan, if_neg (by rw [hu.isBlank_head]; decide), ht,
      ok_bind]
    dsimp only
    rw [ih]
    cases scan rest <;> rfl

section
variable {sticks : Token → Char → Bool} {rest a b cs : List Char} {ts us : List Token}

theorem Lexes.append (ha : Lexes sticks (b ++ rest) a ts) (hb : Lexes sticks rest b us) :
    Lexes sticks rest (a ++ b) (ts ++ us) := by
  induction ha with
  | nil => exact hb
  | blank hc h ih => exact .blank hc ih
  | token hu hf h ih =>
    rw [List.append_assoc, List.cons_append]
    exact .token hu (by rwa [List.append_assoc]) ih

/-- A cut between tokens, right before the first one behind it. -/
theorem Lexes.split (h : Lexes sticks rest cs (ts ++ us)) :
    ∃ a b, cs = a ++ b ∧ Lexes sticks (b ++ rest) a ts ∧ Lexes sticks rest b us ∧
      ∀ c ∈ b.head?, isBlank c = false := by
  generalize hv : ts ++ us = vs at h
  induction h generalizing ts with
  | nil =>
    obtain ⟨rfl, rfl⟩ := List.append_eq_nil_iff.1 hv
    exact ⟨[], [], rfl, .nil, .nil, by simp⟩
  | blank hc h ih =>
    obtain ⟨a, b, rfl, ha, hb, hd⟩ := ih hv
    exact ⟨_ :: a, b, rfl, .blank hc ha, hb, hd⟩
  | @token ls cs t vs hu hf h ih =>
    cases ts with
    | nil =>
      rw [List.nil_append] at hv
      subst hv
      refine ⟨[], ls ++ cs, rfl, .nil, .token hu hf h, ?_⟩
      obtain ⟨c, ls, rfl, -⟩ := hu.head
      intro x hx
      cases hx
      exact hu.isBlank_head
    | cons t' ts =>
      rw [List.cons_append, List.cons.injEq] at hv
      obtain ⟨rfl, hv⟩ := hv
      obtain ⟨a, b, rfl, ha, hb, hd⟩ := ih hv
      exact ⟨ls ++ a, b, (List.append_assoc ..).symm, .token hu (by rwa [← List.append_assoc]) ha,
        hb, hd⟩

theorem Lexes.mono {other : Token → Char → Bool}
    (ho : ∀ t c, other t c = true → sticks t c = true) (h : Lexes sticks rest cs ts) :
    Lexes other rest cs ts := by
  induction h with
  | nil => exact .nil
  | blank hc h ih => exact .blank hc ih
  | token hu hf h ih =>
    refine .token hu (fun x hx => ?_) ih
    by_contra hn
    have := ho _ _ (by simpa using hn)
    rw [hf x hx] at this
    cases this

theorem Lexes.single {t : Token} (h : Lexeme cs t) (hf : ∀ x ∈ rest.head?, sticks t x = false) :
    Lexes sticks rest cs [t] := by
  rw [← List.append_nil cs]
  exact .token h hf .nil

def Loose (sticks : Token → Char → Bool) (rest : List Char) : Prop :=
  ∀ c ∈ rest.head?, ∀ t, sticks t c = false

theorem loose_nil : Loose sticks [] := by simp [Loose]

theorem Lexes.follow {rest' : List Char} (h : Lexes sticks rest cs ts) (hl : Loose sticks rest') :
    Lexes sticks rest' cs ts := by
  induction h with
  | nil => exact .nil
  | blank hc h ih => exact .blank hc ih
  | @token us cs t ts hu hf h ih =>
    refine .token hu ?_ ih
    cases cs with
    | nil => exact fun x hx => hl x hx t
    | cons c cs => exact hf

theorem lexes_nil_iff : Lexes sticks rest cs [] ↔ ∀ c ∈ cs, isBlank c = true := by
  constructor
  · intro h
    generalize hv : ([] : List Token) = vs at h
    induction h with
    | nil => simp
    | blank hc h ih => simpa [hc] using ih hv
    | token => cases hv
  · intro h
    induction cs with
    | nil => exact .nil
    | cons c cs ih => exact .blank (h c List.mem_cons_self) (ih fun x hx => h x (.tail _ hx))

theorem trimEnd_append {a : List Char} (h : ∀ c ∈ a.getLast?, isBlank c = false) (b : List Char) :
    trimEnd (a ++ b) = a ++ trimEnd b := by
  have ha : a.reverse.dropWhile isBlank = a.reverse := by
    cases hr : a.reverse with
    | nil => rfl
    | cons c cs =>
      have hc : a.getLast? = some c := by rw [List.getLast?_eq_head?_reverse, hr]; rfl
      rw [List.dropWhile_cons, h c hc]
      rfl
  unfold trimEnd
  rw [List.reverse_append, List.dropWhile_append]
  split
  · rename_i hb
    simp [ha, List.isEmpty_iff.1 hb]
  · simp

theorem trimEnd_prefix (cs : List Char) : Text.trimEnd cs <+: cs := by
  have := List.reverse_prefix.2 (List.dropWhile_suffix (l := cs.reverse) isBlank)
  rwa [List.reverse_reverse] at this

theorem trimEnd_cons_of_isBlank {c : Char} (hc : isBlank c = true) (cs : List Char) :
    trimEnd (c :: cs) = if trimEnd cs = [] then [] else c :: trimEnd cs := by
  unfold trimEnd
  rw [List.reverse_cons, List.dropWhile_append]
  by_cases h : cs.reverse.dropWhile isBlank = []
  · simp [h, hc]
  · simp [h, List.isEmpty_iff]

theorem Lexes.trimEnd {rest' : List Char} (h : Lexes sticks rest cs ts)
    (hl : Loose sticks rest') : Lexes sticks rest' (Text.trimEnd cs) ts := by
  induction h with
  | nil => exact .nil
  | blank hc h ih =>
    rw [trimEnd_cons_of_isBlank hc]
    split
    · rename_i hn
      rwa [hn] at ih
    · exact .blank hc ih
  | @token us cs t ts hu hf h ih =>
    rw [trimEnd_append hu.isBlank_last]
    refine .token hu ?_ ih
    cases hd : Text.trimEnd cs with
    | nil => exact fun x hx => hl x hx t
    | cons c more =>
      obtain ⟨bs, hb⟩ := trimEnd_prefix cs
      rw [hd] at hb
      exact fun x hx => hf x (by rw [← hb]; exact hx)

theorem Lexes.trim {rest' : List Char} (h : Lexes sticks rest cs ts)
    (hl : Loose sticks rest') : Lexes sticks rest' (Text.trim cs) ts := by
  suffices hs : Lexes sticks rest (trimStart cs) ts from hs.trimEnd hl
  induction h with
  | nil => exact .nil
  | blank hc h ih =>
    rw [trimStart, List.dropWhile_cons, if_pos hc]
    exact ih
  | @token us cs t ts hu hf h ih =>
    obtain ⟨c, us, rfl, -⟩ := hu.head
    rw [trimStart, List.cons_append, List.dropWhile_cons, if_neg (by simp [hu.isBlank_head]),
      ← List.cons_append]
    exact .token hu hf h

theorem trim_eq_nil_iff : Text.trim cs = [] ↔ ∀ c ∈ cs, isBlank c = true := by
  have hend : ∀ xs : List Char, Text.trimEnd xs = [] ↔ ∀ c ∈ xs, isBlank c = true := by
    intro xs
    simp [Text.trimEnd, List.dropWhile_eq_nil_iff]
  rw [Text.trim, hend, trimStart]
  constructor
  · intro h
    have hnil : cs.dropWhile isBlank = [] := by
      cases hd : cs.dropWhile isBlank with
      | nil => rfl
      | cons c more =>
        have hc := head?_dropWhile (p := isBlank) c (by rw [hd]; rfl)
        rw [h c (by rw [hd]; exact List.mem_cons_self)] at hc
        cases hc
    exact List.dropWhile_eq_nil_iff.1 hnil
  · intro h c hc
    exact h c ((List.dropWhile_suffix _).mem hc)

theorem Lexes.uncons {t : Token} (h : Lexes sticks rest cs (t :: ts))
    (hd : ∀ c ∈ cs.head?, isBlank c = false) :
    ∃ us more, cs = us ++ more ∧ Lexeme us t ∧ (∀ x ∈ (more ++ rest).head?, sticks t x = false) ∧
      Lexes sticks rest more ts := by
  cases h with
  | @blank c cs _ hc h =>
    rw [hd c rfl] at hc
    cases hc
  | @token us more _ _ hu hf h => exact ⟨us, more, rfl, hu, hf, h⟩

theorem Lexeme.inWord_of_word {us : List Char} {s : String} (h : Lexeme us (.word s)) :
    ∀ c ∈ s.toList, inWord c = true := by
  cases h with
  | word hc hcs =>
    rw [String.toList_ofList]
    intro x hx
    rcases List.mem_cons.1 hx with rfl | hx
    · exact inWord_of_startsWord hc
    · exact hcs x hx

theorem Lexes.inWord_of_word (h : Lexes sticks rest cs ts) {s : String} (hs : .word s ∈ ts) :
    ∀ c ∈ s.toList, inWord c = true := by
  induction h with
  | nil => cases hs
  | blank hc h ih => exact ih hs
  | @token us cs t ts hu hf h ih =>
    rcases List.mem_cons.1 hs with rfl | hs
    · exact hu.inWord_of_word
    · exact ih hs

end

end EntityQuery.QueryText
