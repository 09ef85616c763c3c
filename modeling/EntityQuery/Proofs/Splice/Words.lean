import EntityQuery.QueryText.Clauses
import EntityQuery.Proofs.Lexing.Lexes
/-! The words at the top level of a lexed text: at most one for each token, and none that starts a
clause unless a token of the top level does. -/
namespace EntityQuery.QueryText
open Text

def clauseWords : List String := ["from", "where", "having", "group", "order"]

/-- What the clause scan reads of a word: the letters up to the first dot. -/
def headWord (s : String) : String :=
  foldCase (String.ofList (s.toList.takeWhile inClauseWord))

def Token.Quiet (t : Token) : Prop := ∀ s, t = .word s → headWord s ∉ clauseWords

def Token.depth (depth : Nat) : Token → Nat
  | .symbol .opening => depth + 1
  | .symbol .closing => depth - 1
  | _ => depth

/-- A word may start behind such a character, or where there is none. -/
def Clean (before : Option Char) : Prop :=
  ∀ b ∈ before, inWord b = false ∧ isWordChar b = false ∧ b ≠ ':'

section
variable {pos depth : Nat} {before : Option Char} {us cs rest : List Char} {c : Char}

theorem topWords_mark (hc : inClauseWord c = false) (hq : c ≠ '\'') :
    topWords pos depth false before (c :: rest) =
      topWords (pos + 1) (if c = '(' then depth + 1 else if c = ')' then depth - 1 else depth) false
        (some c) rest := by
  have : (c == '\'') = false := by simpa using hq
  simp [topWords, hc, this]

theorem getLast?_cons_or : (c :: us).getLast?.or before = us.getLast?.or (some c) := by
  rw [List.getLast?_cons]
  cases us.getLast? <;> rfl

theorem getLast?_append_or :
    (us ++ cs).getLast?.or before = cs.getLast?.or (us.getLast?.or before) := by
  rw [List.getLast?_append, Option.or_assoc]

theorem topWords_silent (depth pos : Nat) (rest : List Char) (h : ∀ x ∈ us, inWord x = true) {b : Char}
    (hb : inWord b = true ∨ b = ':') :
    topWords pos depth false (some b) (us ++ rest) =
      topWords (pos + us.length) depth false (us.getLast?.or (some b)) rest := by
  induction us generalizing pos b with
  | nil => rfl
  | cons c us ih =>
    have hc : inWord c = true := h c List.mem_cons_self
    have hrest := ih (pos + 1) (fun x hx => h x (.tail _ hx)) (.inl hc)
    rw [getLast?_cons_or, List.length_cons, Nat.add_comm us.length, ← Nat.add_assoc, ← hrest]
    by_cases hw : inClauseWord c = true
    · have hskip : (some b).any inClauseWord = true ∨ b = ':' ∨ b = '.' := by
        rcases hb with hb | hb
        · simp only [inWord, Bool.or_eq_true, beq_iff_eq] at hb
          rcases hb with hb | hb
          · exact .inl hb
          · exact .inr (.inr hb)
        · exact .inr (.inl hb)
      rw [List.cons_append, topWords, if_neg (by decide), if_pos hw, if_pos]
      simp only [Bool.or_eq_true, beq_iff_eq, Option.some.injEq]
      tauto
    · have hdot : c = '.' := by
        simp only [inWord, Bool.or_eq_true, beq_iff_eq] at hc
        exact hc.resolve_left hw
      subst hdot
      exact topWords_mark (by simpa using hw) (by decide)

theorem topWords_doubled (depth pos : Nat) (before : Option Char) (s rest : List Char) :
    topWords pos depth true before (doubled s ++ '\'' :: rest) =
      topWords (pos + (doubled s).length + 1) depth false (some '\'') rest := by
  induction s generalizing pos before with
  | nil => simp [doubled, topWords]
  | cons c s ih =>
    by_cases hc : c = '\''
    · subst hc
      have hd : doubled ('\'' :: s) = '\'' :: '\'' :: doubled s := rfl
      rw [hd, List.cons_append, List.cons_append, topWords, if_pos rfl, topWords,
        if_neg (by decide), if_neg (by decide)]
      simp only [beq_self_eq_true]
      rw [if_neg (by decide), if_neg (by decide), ih, List.length_cons, List.length_cons]
      congr 1
      omega
    · have hd : doubled (c :: s) = c :: doubled s := by simp [doubled, hc]
      rw [hd, List.cons_append, topWords, if_pos rfl]
      have : (c != '\'') = true := by simpa using hc
      rw [this, ih, List.length_cons]
      congr 1
      omega

theorem takeWhile_append {p : Char → Bool} (h : ∀ x ∈ rest.head?, p x = false) :
    (us ++ rest).takeWhile p = us.takeWhile p := by
  induction us with
  | nil =>
    cases rest with
    | nil => rfl
    | cons x rest => simp [h x rfl]
  | cons c us ih => simp only [List.cons_append, List.takeWhile_cons, ih]

theorem not_clause_of_inWord (h : inWord c = false) : inClauseWord c = false := by
  simp only [inWord, Bool.or_eq_false_iff] at h
  exact h.1

theorem takeWhile_run (hc : inClauseWord c = true) (hf : ∀ x ∈ rest.head?, inWord x = false) :
    c :: (us ++ rest).takeWhile inClauseWord = (c :: us).takeWhile inClauseWord := by
  rw [List.takeWhile_cons, if_pos hc,
    takeWhile_append fun x hx => not_clause_of_inWord (hf x hx)]

theorem topWords_run (pos depth : Nat) (before : Option Char) (rest : List Char)
    (hc : inClauseWord c = true) (h : ∀ x ∈ us, inWord x = true) :
    ∃ ws, topWords pos depth false before (c :: us ++ rest) =
        ws ++ topWords (pos + (c :: us).length) depth false ((c :: us).getLast?.or before) rest ∧
      ∀ w ∈ ws, w.2 = foldCase (String.ofList (c :: (us ++ rest).takeWhile inClauseWord)) := by
  have hrest := topWords_silent depth (pos + 1) rest h (.inl (inWord_of_inName hc))
  rw [getLast?_cons_or, List.length_cons, Nat.add_comm us.length, ← Nat.add_assoc, ← hrest,
    List.cons_append, topWords, if_neg (by decide), if_pos hc]
  dsimp only
  split
  · exact ⟨[], rfl, by simp⟩
  · exact ⟨[_], rfl, by simp⟩

theorem topWords_word (hc : inClauseWord c = true) (h : ∀ x ∈ us, inWord x = true)
    (hb : Clean before) (hf : ∀ x ∈ rest.head?, inWord x = false) :
    topWords pos 0 false before (c :: us ++ rest) =
      (pos, headWord (String.ofList (c :: us))) ::
        topWords (pos + (c :: us).length) 0 false ((c :: us).getLast?.or before) rest := by
  have hrest := topWords_silent 0 (pos + 1) rest h (.inl (inWord_of_inName hc))
  rw [getLast?_cons_or, List.length_cons, Nat.add_comm us.length, ← Nat.add_assoc, ← hrest,
    List.cons_append, topWords, if_neg (by decide), if_pos hc, headWord, String.toList_ofList,
    ← takeWhile_run hc hf]
  dsimp only
  rw [if_neg]
  cases before with
  | none => simp
  | some b =>
    obtain ⟨hb, -, hcolon⟩ := hb b rfl
    have hdot : b ≠ '.' := by
      rintro rfl
      cases hb
    simp [not_clause_of_inWord hb, hcolon, hdot]

theorem foldCase_of_isDigit (hc : c.isDigit = true) (cs : List Char) :
    foldCase (String.ofList (c :: cs)) ∉ clauseWords := by
  have hl : c.toLower.isDigit = true := by
    have := forall_ascii (p := fun c => !c.isDigit || c.toLower.isDigit) (by decide +kernel)
      (toNat_of_isDigit hc)
    simpa [hc] using this
  intro h
  simp only [clauseWords, foldCase, List.mem_cons, List.not_mem_nil, or_false,
    String.toList_ofList, List.map_cons] at h
  obtain h | h | h | h | h := h
  all_goals
    have h := congrArg String.toList h
    rw [String.toList_ofList] at h
    rw [List.head_eq_of_cons_eq h] at hl
    cases hl

theorem topWords_digits (pos depth : Nat) (before : Option Char) (rest : List Char)
    (hc : c.isDigit = true) (h : ∀ x ∈ us, inWord x = true) :
    ∃ ws, topWords pos depth false before (c :: us ++ rest) =
        ws ++ topWords (pos + (c :: us).length) depth false ((c :: us).getLast?.or before) rest ∧
      ∀ w ∈ ws, w.2 ∉ clauseWords := by
  obtain ⟨ws, he, hws⟩ := topWords_run pos depth before rest (isDigit_class hc).2 h
  refine ⟨ws, he, fun w hw => ?_⟩
  rw [hws w hw]
  exact foldCase_of_isDigit hc _

theorem topWords_lexeme {t : Token} (pos depth : Nat) (before : Option Char) (hu : Lexeme us t)
    (hf : ∀ x ∈ rest.head?, t.extends x = false) (hq : t.Quiet) :
    ∃ ws, topWords pos depth false before (us ++ rest) =
        ws ++ topWords (pos + us.length) (t.depth depth) false (us.getLast?.or before) rest ∧
      ∀ w ∈ ws, w.2 ∉ clauseWords := by
  cases hu with
  | @word c cs hc h =>
    have hcl : inClauseWord c = true := inName_of_startsWord hc
    obtain ⟨ws, he, hws⟩ := topWords_run pos depth before rest hcl h
    refine ⟨ws, he, fun w hw => ?_⟩
    have := hq _ rfl
    rwa [headWord, String.toList_ofList, ← takeWhile_run hcl hf, ← hws w hw] at this
  | @number c cs n hc h hn =>
    have hin : ∀ x ∈ cs, inWord x = true := fun x hx => inWord_of_inNumber (h x hx)
    simp only [startsNumber, Bool.or_eq_true, Bool.and_eq_true, beq_iff_eq] at hc
    obtain hc | ⟨rfl, hd⟩ := hc
    · exact topWords_digits pos depth before rest hc hin
    · -- The sign shows nothing, the digits behind it are a run of their own.
      cases cs with
      | nil => cases hd
      | cons d cs =>
        have hd : d.isDigit = true := by simpa using hd
        obtain ⟨ws, he, hws⟩ := topWords_digits (pos + 1) depth (some '-') rest hd
          fun x hx => hin x (.tail _ hx)
        refine ⟨ws, ?_, hws⟩
        rw [List.cons_append, topWords_mark (by decide) (by decide), if_neg (by decide),
          if_neg (by decide), he, getLast?_cons_or (c := '-')]
        simp [Token.depth, Nat.add_assoc, Nat.add_comm 1]
  | quoted s =>
    refine ⟨[], ?_, by simp⟩
    have hq : inClauseWord '\'' = false := by decide +kernel
    have hlit := topWords_doubled depth (pos + 1) (some '\'') s rest
    have hl : '\'' :: (doubled s ++ ['\'']) ++ rest = '\'' :: (doubled s ++ '\'' :: rest) := by simp
    rw [hl, topWords, if_neg (by decide), if_neg (by simp [hq])]
    simp only [beq_self_eq_true]
    rw [if_neg (by decide), if_neg (by decide), hlit, getLast?_cons_or, List.getLast?_append]
    simp [Token.depth, Nat.add_assoc, Nat.add_comm 1]
  | @parameter cs hne h =>
    refine ⟨[], ?_, by simp⟩
    rw [List.cons_append, topWords_mark (by decide) (by decide),
      topWords_silent _ _ _ (fun x hx => inWord_of_inName (h x hx)) (.inr rfl), getLast?_cons_or]
    simp [Token.depth, Nat.add_assoc, Nat.add_comm 1]
  | @symbol c cs s hs =>
    refine ⟨[], ?_, by simp⟩
    obtain ⟨hlt, hs⟩ := hs
    unfold symbol? at hs
    split at hs
    all_goals cases hs
    case h_1 | h_2 | h_3 | h_4 =>
      simp only [List.cons_append, List.nil_append]
      rw [topWords_mark (by decide) (by decide), topWords_mark (by decide) (by decide)]
      rfl
    all_goals
      simp only [List.cons_append, List.nil_append]
      rw [topWords_mark (by decide) (by decide)]
      rfl

theorem not_inWord_of_isBlank (h : isBlank c = true) : inWord c = false := (word_of_isBlank h).1

theorem ne_of_isBlank {d : Char} (hc : isBlank c = true) (hd : isBlank d = false) : c ≠ d := by
  rintro rfl
  rw [hc] at hd
  cases hd

theorem topWords_blank (hc : isBlank c = true) :
    topWords pos depth false before (c :: rest) = topWords (pos + 1) depth false (some c) rest := by
  rw [topWords_mark (not_clause_of_inWord (not_inWord_of_isBlank hc))
      (ne_of_isBlank hc (by decide)),
    if_neg (ne_of_isBlank hc (by decide)), if_neg (ne_of_isBlank hc (by decide))]

theorem clean_of_isBlank (hc : isBlank c = true) : Clean (some c) := by
  intro b hb
  cases hb
  exact ⟨not_inWord_of_isBlank hc, (word_of_isBlank hc).2, ne_of_isBlank hc (by decide)⟩

end

section
variable {depth : Nat} {before : Option Char} {cs rest : List Char} {ts : List Token}

/-- A lexed text of quiet tokens shows no clause word, and leaves as many parentheses open as its
tokens do. -/
theorem Lexes.topWords_quiet (h : Lexes Token.extends rest cs ts) (hq : ∀ t ∈ ts, t.Quiet)
    (pos depth : Nat) (before : Option Char) :
    ∃ ws, topWords pos depth false before (cs ++ rest) =
        ws ++ topWords (pos + cs.length) (ts.foldl Token.depth depth) false
          (cs.getLast?.or before) rest ∧
      ∀ w ∈ ws, w.2 ∉ clauseWords := by
  induction h generalizing pos depth before with
  | nil => exact ⟨[], rfl, by simp⟩
  | @blank c cs ts hc h ih =>
    obtain ⟨ws, he, hws⟩ := ih hq (pos + 1) depth (some c)
    refine ⟨ws, ?_, hws⟩
    rw [List.cons_append, topWords_blank hc, he, getLast?_cons_or, List.length_cons,
      Nat.add_comm cs.length, Nat.add_assoc]
  | @token us cs t ts hu hf h ih =>
    obtain ⟨vs, hv, hvs⟩ := topWords_lexeme pos depth before hu hf (hq t List.mem_cons_self)
    obtain ⟨ws, he, hws⟩ := ih (fun t ht => hq t (.tail _ ht)) (pos + us.length) (t.depth depth)
      (us.getLast?.or before)
    refine ⟨vs ++ ws, ?_, fun w hw => ?_⟩
    · rw [List.append_assoc, hv, he, getLast?_append_or, List.append_assoc, List.length_append,
        Nat.add_assoc, List.foldl_cons]
    · rcases List.mem_append.1 hw with hw | hw
      · exact hvs w hw
      · exact hws w hw

theorem Lexes.eq_nil {sticks : Token → Char → Bool} (h : Lexes sticks rest [] ts) : ts = [] := by
  generalize hv : ([] : List Char) = vs at h
  cases h with
  | nil => rfl
  | blank => cases hv
  | token hu =>
    obtain ⟨c, us, rfl, -⟩ := hu.head
    cases hv

def Token.shown : Token → Option String
  | .word s => some (headWord s)
  | _ => none

theorem Lexes.topWords_words (h : Lexes Token.extends rest cs ts)
    (hw : ∀ t ∈ ts, (∃ s, t = .word s) ∨ t = .symbol .comma) (pos : Nat) (before : Option Char)
    (hb : ∀ c ∈ (cs ++ rest).head?, startsWord c = true → Clean before) :
    ∃ ws, topWords pos 0 false before (cs ++ rest) =
        ws ++ topWords (pos + cs.length) 0 false (cs.getLast?.or before) rest ∧
      ws.map (·.2) = ts.filterMap Token.shown := by
  induction h generalizing pos before with
  | nil => exact ⟨[], rfl, rfl⟩
  | @blank c cs ts hc h ih =>
    obtain ⟨ws, he, hws⟩ := ih hw (pos + 1) (some c) fun _ _ _ => clean_of_isBlank hc
    refine ⟨ws, ?_, hws⟩
    rw [List.cons_append, topWords_blank hc, he, getLast?_cons_or, List.length_cons,
      Nat.add_comm cs.length, Nat.add_assoc]
  | @token us cs t ts hu hf h ih =>
    have htail : ∀ t ∈ ts, (∃ s, t = .word s) ∨ t = .symbol .comma := fun t ht => hw t (.tail _ ht)
    obtain ⟨s, rfl⟩ | rfl := hw t List.mem_cons_self
    · cases hu with
      | @word c us hc hus =>
        have hnext : ∀ x ∈ (cs ++ rest).head?, startsWord x = true →
            Clean ((c :: us).getLast?.or before) := by
          intro x hx hs
          have := hf x hx
          rw [Token.extends, inWord_of_startsWord hs] at this
          cases this
        obtain ⟨ws, he, hws⟩ := ih htail (pos + (c :: us).length) _ hnext
        refine ⟨(pos, headWord (String.ofList (c :: us))) :: ws, ?_, by simp [Token.shown, hws]⟩
        rw [List.append_assoc, topWords_word (inName_of_startsWord hc) hus (hb c rfl hc) hf, he,
          getLast?_append_or, List.length_append, Nat.add_assoc]
        rfl
    · obtain rfl := List.mem_singleton.1 (lexeme_symbol_iff.1 hu)
      have hnext : ∀ x ∈ (cs ++ rest).head?, startsWord x = true → Clean (some ',') :=
        fun _ _ _ b hb => by cases hb; decide +kernel
      obtain ⟨ws, he, hws⟩ := ih htail (pos + 1) _ hnext
      refine ⟨ws, ?_, hws⟩
      rw [List.append_assoc, List.singleton_append, topWords_mark (by decide) (by decide),
        if_neg (by decide), if_neg (by decide), he, List.singleton_append, getLast?_cons_or,
        List.length_cons, Nat.add_comm cs.length, Nat.add_assoc]

/-- A word behind a lexed text starts as a word, unless it is glued to a number. -/
theorem Lexes.clean_or_number {sticks : Token → Char → Bool}
    (he : ∀ t c, t.extends c = true → sticks t c = true) {c : Char} (hc : startsWord c = true)
    (h : Lexes sticks (c :: rest) cs ts) :
    Clean cs.getLast? ∨ ∃ n b, ts.getLast? = some (.number n) ∧ cs.getLast? = some b ∧
      inWord b = true ∧ sticks (.number n) c = false := by
  induction h with
  | nil => exact .inl (by simp [Clean])
  | @blank d cs ts hd h ih =>
    cases cs with
    | nil => exact .inl (clean_of_isBlank hd)
    | cons x xs =>
      rw [List.getLast?_cons_cons]
      exact ih
  | @token us cs t ts hu hf h ih =>
    cases cs with
    | nil =>
      obtain rfl := h.eq_nil
      rw [List.append_nil]
      have hf : sticks t c = false := hf c rfl
      have hext : t.extends c = false := by
        by_contra hn
        rw [he t c (by simpa using hn)] at hf
        cases hf
      cases hu with
      | word => simp [Token.extends, inWord_of_startsWord hc] at hext
      | @number d ds n hd hds hn =>
        refine .inr ⟨n, (d :: ds).getLast (by simp), rfl, List.getLast?_eq_some_getLast _, ?_, hf⟩
        cases ds with
        | nil => exact inWord_of_inName (isDigit_class (by simpa [startsNumber] using hd)).2
        | cons e es =>
          rw [List.getLast_cons_cons]
          exact inWord_of_inNumber (hds _ (List.getLast_mem _))
      | quoted s =>
        refine .inl ?_
        rw [← List.cons_append, List.getLast?_append_of_ne_nil _ (by simp)]
        exact fun b hb => by cases hb; decide +kernel
      | parameter => simp [Token.extends, inName_of_startsWord hc] at hext
      | symbol hs =>
        refine .inl ?_
        obtain ⟨hlt, hs⟩ := hs
        unfold symbol? at hs
        split at hs
        all_goals cases hs
        all_goals exact fun b hb => by cases hb; decide +kernel
    | cons x xs =>
      rw [List.getLast?_append_of_ne_nil _ (by simp)]
      obtain hclean | ⟨n, b, hn, hrest⟩ := ih
      · exact .inl hclean
      · refine .inr ⟨n, b, ?_, hrest⟩
        cases ts with
        | nil => cases hn
        | cons t' ts => rwa [List.getLast?_cons_cons]

end

end EntityQuery.QueryText
