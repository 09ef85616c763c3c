import EntityQuery.Proofs.Splice.Trim
import EntityQuery.Proofs.Splice.Words
/-! The clause scan on text of any dialect: where it stands behind a piece of text, that the words
of a text are those of its pieces, and that every word is the start of such a piece. -/
namespace EntityQuery.QueryText
open Text

/-- Where the clause scan stands behind a text: how many parentheses are open, and whether a literal
is. -/
def standsAt (depth : Nat) (quoted : Bool) : List Char → Nat × Bool
  | [] => (depth, quoted)
  | c :: rest =>
    if quoted then standsAt depth (c != '\'') rest
    else
      standsAt (if c = '(' then depth + 1 else if c = ')' then depth - 1 else depth) (c == '\'')
        rest

/-- Whether a text closes what is open before it and all that it opens, and nothing else. -/
def closes (depth : Nat) (quoted : Bool) : List Char → Bool
  | [] => depth == 0 && !quoted
  | c :: rest =>
    if quoted then closes depth (c != '\'') rest
    else if c = ')' then depth != 0 && closes (depth - 1) false rest
    else closes (if c = '(' then depth + 1 else depth) (c == '\'') rest

/-- The clause scan may take what stands behind such a character, or at the start, for a word. -/
def Detached (before : Option Char) : Prop :=
  before.any inClauseWord = false ∧ before ≠ some ':' ∧ before ≠ some '.'

theorem detached_none : Detached none := ⟨rfl, by simp, by simp⟩

def showsAt (depth : Nat) (quoted : Bool) (before : Option Char) (c : Char) : Bool :=
  !quoted && inClauseWord c &&
    !(before.any inClauseWord || depth != 0 || before == some ':' || before == some '.')

def shownWords (text : List Char) : List String := (topWords 0 0 false none text).map (·.2)

section
variable {pos depth : Nat} {quoted : Bool} {before : Option Char} {c : Char}
  {us cs rest : List Char}

theorem ne_mark_of_inClauseWord (hc : inClauseWord c = true) : c ≠ '(' ∧ c ≠ ')' ∧ c ≠ '\'' := by
  refine ⟨?_, ?_, ?_⟩
  all_goals
    rintro rfl
    revert hc
    decide +kernel

theorem inClauseWord_of_showsAt (h : showsAt depth quoted before c = true) :
    inClauseWord c = true := by
  simp only [showsAt, Bool.and_eq_true] at h
  exact h.1.2

theorem showsAt_first (hc : inClauseWord c = true) : showsAt 0 false none c = true := by
  simp [showsAt, hc]

theorem topWords_cons :
    topWords pos depth quoted before (c :: rest) =
      (if showsAt depth quoted before c then
        [(pos, foldCase (String.ofList (c :: rest.takeWhile inClauseWord)))] else []) ++
        topWords (pos + 1) (standsAt depth quoted [c]).1 (standsAt depth quoted [c]).2 (some c)
          rest := by
  cases quoted with
  | true => rfl
  | false =>
    by_cases hc : inClauseWord c = true
    · obtain ⟨ho, hl, hq⟩ := ne_mark_of_inClauseWord hc
      have hq : (c == '\'') = false := beq_false_of_ne hq
      rw [topWords, if_neg (by decide), if_pos hc]
      simp only [standsAt, showsAt, hc, ho, hl, hq, if_false, Bool.not_false, Bool.true_and,
        Bool.false_eq_true]
      split
      · rename_i h
        simp [h]
      · rename_i h
        simp [h]
    · rw [topWords, if_neg (by decide), if_neg hc]
      simp [standsAt, showsAt, hc]

theorem standsAt_append (depth : Nat) (quoted : Bool) (us cs : List Char) :
    standsAt depth quoted (us ++ cs) =
      standsAt (standsAt depth quoted us).1 (standsAt depth quoted us).2 cs := by
  induction us generalizing depth quoted with
  | nil => rfl
  | cons c us ih =>
    rw [List.cons_append, standsAt, standsAt]
    split
    · exact ih _ _
    · exact ih _ _

theorem standsAt_cons (depth : Nat) (quoted : Bool) (c : Char) (cs : List Char) :
    standsAt depth quoted (c :: cs) =
      standsAt (standsAt depth quoted [c]).1 (standsAt depth quoted [c]).2 cs :=
  standsAt_append depth quoted [c] cs

/-- Behind characters that a word does not continue with, the characters of a word are the same. -/
theorem takeWhile_append_of_seam
    (h : (us.getLast?.or (some c)).any inClauseWord = true → rest.head?.any inClauseWord = false)
    (hc : inClauseWord c = true) :
    (us ++ rest).takeWhile inClauseWord = us.takeWhile inClauseWord := by
  by_cases hall : ∀ x ∈ us, inClauseWord x = true
  · refine takeWhile_append fun x hx => ?_
    have hlast : (us.getLast?.or (some c)).any inClauseWord = true := by
      cases hl : us.getLast? with
      | none => exact hc
      | some b => exact hall b (List.mem_of_getLast? hl)
    simpa [Option.mem_def.1 hx] using h hlast
  · rw [List.takeWhile_append, if_neg]
    intro hlen
    refine hall (List.takeWhile_eq_self_iff.1 ?_)
    exact (List.takeWhile_prefix _).eq_of_length hlen

/-- The words of a text are those of its pieces, if no word goes across. -/
theorem topWords_append (pos depth : Nat) (quoted : Bool) (before : Option Char)
    (h : (us.getLast?.or before).any inClauseWord = true → rest.head?.any inClauseWord = false) :
    topWords pos depth quoted before (us ++ rest) =
      topWords pos depth quoted before us ++
        topWords (pos + us.length) (standsAt depth quoted us).1 (standsAt depth quoted us).2
          (us.getLast?.or before) rest := by
  induction us generalizing pos depth quoted before with
  | nil => rfl
  | cons c us ih =>
    rw [getLast?_cons_or] at h ⊢
    rw [List.cons_append, topWords_cons, topWords_cons, ih _ _ _ _ h, List.append_assoc,
      standsAt_cons _ _ _ us, List.length_cons, Nat.add_assoc, Nat.add_comm 1]
    congr 1
    by_cases hs : showsAt depth quoted before c = true
    · rw [if_pos hs, if_pos hs, takeWhile_append_of_seam h (inClauseWord_of_showsAt hs)]
    · rw [if_neg hs, if_neg hs]

/-- What stands in front of a text matters only as far as its first word is concerned. -/
theorem topWords_detached {other : Option Char} (hb : Detached before) (ho : Detached other) :
    topWords pos depth quoted before cs = topWords pos depth quoted other cs := by
  cases cs with
  | nil => rfl
  | cons c cs =>
    obtain ⟨hb₁, hb₂, hb₃⟩ := hb
    obtain ⟨ho₁, ho₂, ho₃⟩ := ho
    rw [topWords_cons, topWords_cons]
    simp [showsAt, hb₁, hb₂, hb₃, ho₁, ho₂, ho₃]

theorem topWords_markFirst (h : cs.head?.any inClauseWord = false) (other : Option Char) :
    topWords pos depth quoted before cs = topWords pos depth quoted other cs := by
  cases cs with
  | nil => rfl
  | cons c cs =>
    have hc : inClauseWord c = false := h
    rw [topWords_cons, topWords_cons]
    simp [showsAt, hc]

theorem map_topWords (pos depth : Nat) (quoted : Bool) (before : Option Char) (cs : List Char) :
    topWords pos depth quoted before cs =
      (topWords 0 depth quoted before cs).map fun w => (pos + w.1, w.2) := by
  induction cs generalizing pos depth quoted before with
  | nil => rfl
  | cons c cs ih =>
    rw [topWords_cons, topWords_cons, ih (pos + 1), ih (0 + 1), List.map_append, List.map_map]
    congr 1
    · split
      · rfl
      · rfl
    · refine List.map_congr_left fun w _ => ?_
      simp [Nat.add_assoc]

theorem map_snd_topWords (pos : Nat) (before : Option Char) (hb : Detached before)
    (cs : List Char) :
    (topWords pos 0 false before cs).map (·.2) = shownWords cs := by
  rw [shownWords, topWords_detached hb detached_none, map_topWords, List.map_map]
  rfl

/-- Where a word is shown the text can be cut: nothing is open there, and the word starts a piece of
its own. -/
theorem topWords_split {ws vs : List (Nat × String)} {w : Nat × String}
    (h : topWords pos depth quoted before cs = ws ++ w :: vs) :
    ∃ us rest, cs = us ++ rest ∧ w.1 = pos + us.length ∧ topWords pos depth quoted before us = ws ∧
      standsAt depth quoted us = (0, false) ∧ Detached (us.getLast?.or before) ∧
      rest.head?.any inClauseWord = true ∧
      topWords w.1 0 false (us.getLast?.or before) rest = w :: vs := by
  induction cs generalizing pos depth quoted before ws with
  | nil =>
    rw [topWords] at h
    cases ws <;> cases h
  | cons c cs ih =>
    rw [topWords_cons] at h
    -- The word is the one that starts here, or it comes behind.
    by_cases hs : showsAt depth quoted before c = true ∧ ws = []
    · obtain ⟨hs, rfl⟩ := hs
      rw [if_pos hs] at h
      obtain ⟨hw, hvs⟩ := List.cons.inj h
      have hshows := hs
      simp only [showsAt, Bool.and_eq_true, Bool.not_eq_eq_eq_not, Bool.not_true,
        Bool.or_eq_false_iff, bne_eq_false_iff_eq, beq_eq_false_iff_ne] at hshows
      obtain ⟨⟨rfl, hc⟩, ⟨⟨hb, rfl⟩, hcolon⟩, hdot⟩ := hshows
      refine ⟨[], c :: cs, rfl, by rw [← hw]; rfl, rfl, rfl, ⟨hb, hcolon, hdot⟩, hc, ?_⟩
      rw [topWords_cons, List.getLast?_nil, Option.none_or, if_pos hs, ← hvs, ← hw]
      rfl
    · obtain ⟨ws', hws, hrest⟩ : ∃ ws', ws = (if showsAt depth quoted before c then
          [(pos, foldCase (String.ofList (c :: cs.takeWhile inClauseWord)))] else []) ++ ws' ∧
          topWords (pos + 1) (standsAt depth quoted [c]).1 (standsAt depth quoted [c]).2 (some c)
            cs = ws' ++ w :: vs := by
        by_cases hshows : showsAt depth quoted before c = true
        · rw [if_pos hshows] at h ⊢
          cases ws with
          | nil => exact (hs ⟨hshows, rfl⟩).elim
          | cons x ws =>
            obtain ⟨rfl, hrest⟩ := List.cons.inj h
            exact ⟨ws, rfl, hrest⟩
        · rw [if_neg hshows] at h ⊢
          exact ⟨ws, rfl, h⟩
      obtain ⟨us, rest, rfl, hpos, hus, hstand, hdetached, hfirst, hw⟩ := ih hrest
      refine ⟨c :: us, rest, rfl, ?_, ?_, ?_, ?_, hfirst, ?_⟩
      · rw [hpos, List.length_cons, Nat.add_assoc, Nat.add_comm 1]
      · rw [topWords_cons, hus, hws]
        congr 1
        split
        · rename_i hshows
          rw [takeWhile_append_of_seam (fun hb => ?_) (inClauseWord_of_showsAt hshows)]
          rw [hdetached.1] at hb
          cases hb
        · rfl
      · rw [standsAt_cons, hstand]
      · rwa [getLast?_cons_or]
      · rwa [getLast?_cons_or]

theorem standsAt_of_isBlank (hc : isBlank c = true) :
    standsAt depth quoted [c] = (depth, quoted) := by
  have ho : c ≠ '(' := ne_of_isBlank hc (by decide)
  have hl : c ≠ ')' := ne_of_isBlank hc (by decide)
  have hq : c ≠ '\'' := ne_of_isBlank hc (by decide)
  cases quoted
  all_goals simp [standsAt, ho, hl, hq]

theorem Blanks.standsAt (h : Blanks us) (depth : Nat) (quoted : Bool) :
    standsAt depth quoted us = (depth, quoted) := by
  induction us with
  | nil => rfl
  | cons c us ih =>
    rw [standsAt_cons, standsAt_of_isBlank (h c List.mem_cons_self)]
    exact ih fun x hx => h x (.tail _ hx)

theorem Blanks.topWords (h : Blanks us) (pos depth : Nat) (quoted : Bool) (before : Option Char) :
    topWords pos depth quoted before us = [] := by
  induction us generalizing pos before with
  | nil => rfl
  | cons c us ih =>
    have hc := h c List.mem_cons_self
    rw [topWords_cons, standsAt_of_isBlank hc, ih fun x hx => h x (.tail _ hx)]
    simp [showsAt, not_clause_of_inWord (not_inWord_of_isBlank hc)]

theorem Blanks.head (h : Blanks us) : us.head?.any inClauseWord = false := by
  cases us with
  | nil => rfl
  | cons c us => exact not_clause_of_inWord (not_inWord_of_isBlank (h c List.mem_cons_self))

theorem detached_of_isBlank (hc : isBlank c = true) : Detached (some c) := by
  refine ⟨not_clause_of_inWord (not_inWord_of_isBlank hc), ?_, ?_⟩
  all_goals
    rintro h
    cases h
    cases hc

theorem Blanks.detached (h : Blanks us) : Detached us.getLast? := by
  cases hl : us.getLast? with
  | none => exact detached_none
  | some b => exact detached_of_isBlank (h b (List.mem_of_getLast? hl))

theorem topWords_append_blanks (h : Blanks cs) (pos depth : Nat) (quoted : Bool)
    (before : Option Char) :
    topWords pos depth quoted before (us ++ cs) = topWords pos depth quoted before us := by
  rw [topWords_append pos depth quoted before fun _ => h.head, h.topWords, List.append_nil]

theorem standsAt_append_blanks (h : Blanks cs) (depth : Nat) (quoted : Bool) (us : List Char) :
    standsAt depth quoted (us ++ cs) = standsAt depth quoted us := by
  rw [standsAt_append, h.standsAt]

theorem topWords_trimEnd (pos depth : Nat) (quoted : Bool) (before : Option Char) (cs : List Char) :
    topWords pos depth quoted before (trimEnd cs) = topWords pos depth quoted before cs := by
  obtain ⟨bs, hcut, hbs⟩ := trimEnd_cut cs
  conv_rhs => rw [hcut, topWords_append_blanks hbs]

theorem standsAt_trimEnd (depth : Nat) (quoted : Bool) (cs : List Char) :
    standsAt depth quoted (trimEnd cs) = standsAt depth quoted cs := by
  obtain ⟨bs, hcut, hbs⟩ := trimEnd_cut cs
  conv_rhs => rw [hcut, standsAt_append_blanks hbs]

theorem standsAt_trim (depth : Nat) (quoted : Bool) (cs : List Char) :
    standsAt depth quoted (trim cs) = standsAt depth quoted cs := by
  obtain ⟨as, bs, hcut, has, hbs⟩ := trim_cut cs
  conv_rhs => rw [hcut, standsAt_append, has.standsAt, standsAt_append_blanks hbs]

theorem shownWords_trim (cs : List Char) : shownWords (trim cs) = shownWords cs := by
  obtain ⟨as, bs, hcut, has, hbs⟩ := trim_cut cs
  conv_rhs =>
    rw [shownWords, hcut, topWords_append 0 0 false none (by simp [has.detached.1]), has.topWords,
      has.standsAt, List.nil_append, topWords_append_blanks hbs, Option.or_none,
      map_snd_topWords _ _ has.detached]

theorem closes_cons (depth : Nat) (quoted : Bool) (c : Char) (cs : List Char) :
    closes depth quoted (c :: cs) = true ↔ (quoted = false → c = ')' → depth ≠ 0) ∧
      closes (standsAt depth quoted [c]).1 (standsAt depth quoted [c]).2 cs = true := by
  cases quoted with
  | true => simp [closes, standsAt]
  | false =>
    by_cases hc : c = ')'
    · subst hc
      simp [closes, standsAt]
    · simp [closes, standsAt, hc]

theorem standsAt_outer (h : quoted = false → c = ')' → depth ≠ 0) (outer : Nat) :
    standsAt (outer + depth) quoted [c] =
      (outer + (standsAt depth quoted [c]).1, (standsAt depth quoted [c]).2) := by
  cases quoted with
  | true => rfl
  | false =>
    simp only [standsAt, Bool.false_eq_true, if_false, Prod.mk.injEq, and_true]
    split
    · omega
    split
    · rename_i hc
      have := h rfl hc
      omega
    · rfl

/-- Behind a text that closes what it opens, the clause scan stands as before it. -/
theorem standsAt_of_closes (h : closes depth quoted cs = true) (outer : Nat) :
    standsAt (outer + depth) quoted cs = (outer, false) := by
  induction cs generalizing depth quoted with
  | nil =>
    simp only [closes, Bool.and_eq_true, beq_iff_eq, Bool.not_eq_eq_eq_not, Bool.not_true] at h
    obtain ⟨rfl, rfl⟩ := h
    rfl
  | cons c cs ih =>
    obtain ⟨hdepth, h⟩ := (closes_cons _ _ _ _).1 h
    rw [standsAt_cons, standsAt_outer hdepth]
    exact ih h

/-- Inside parentheses, a text that closes what it opens shows nothing. -/
theorem topWords_of_closes (h : closes depth quoted cs = true) (pos outer : Nat)
    (before : Option Char) : topWords pos (outer + 1 + depth) quoted before cs = [] := by
  induction cs generalizing pos depth quoted before with
  | nil => rfl
  | cons c cs ih =>
    obtain ⟨hdepth, h⟩ := (closes_cons _ _ _ _).1 h
    have hhidden : showsAt (outer + 1 + depth) quoted before c = false := by simp [showsAt]
    rw [topWords_cons, hhidden, standsAt_outer hdepth, ih h]
    rfl

theorem closes_append_iff (h : standsAt depth quoted us = (0, false)) :
    closes depth quoted (us ++ cs) = true ↔
      closes depth quoted us = true ∧ closes 0 false cs = true := by
  induction us generalizing depth quoted with
  | nil =>
    cases h
    simp [closes]
  | cons c us ih =>
    rw [standsAt_cons] at h
    rw [List.cons_append, closes_cons, closes_cons, ih h, and_assoc]

theorem closes_trim (h : closes 0 false cs = true) : closes 0 false (trim cs) = true := by
  obtain ⟨as, bs, hcut, has, hbs⟩ := trim_cut cs
  have hstands : standsAt 0 false (trim cs) = (0, false) := by
    rw [standsAt_trim]
    exact standsAt_of_closes h 0
  rw [hcut, closes_append_iff (has.standsAt 0 false), closes_append_iff hstands] at h
  exact h.2.1

end

end EntityQuery.QueryText
