import EntityQuery.QueryText.Alias
import EntityQuery.Proofs.Splice.Clauses
/-! The alias that the pattern for sources finds in the text of a statement: that of its first
source. -/
namespace EntityQuery.QueryText
open Text

def Plain (s : String) : Prop := (∀ c ∈ s.toList, c.toNat < 128) ∧ hasDot s = false

section
variable {ls cs r w more : List Char} {c : Char}

theorem isWordChar_of_isAlpha (h : c.toLower.isAlpha = true) : isWordChar c = true := by
  have := forall_ascii (p := fun c => !c.toLower.isAlpha || isWordChar c) (by decide +kernel)
    (toNat_of_toLower_isAlpha h)
  simpa [h] using this

theorem isWordChar_of_isLetter {l : Char} (hl : l.isAlpha = true) (h : isLetter l c = true) :
    isWordChar c = true := by
  simp only [isLetter, Bool.or_eq_true, Bool.and_eq_true, beq_iff_eq] at h
  rcases h with rfl | ⟨-, rfl⟩
  · exact isWordChar_of_isAlpha hl
  · decide +kernel

theorem afterLetters?_eq_some (hl : ∀ l ∈ ls, l.isAlpha = true) (h : afterLetters? ls cs = some r) :
    ∃ us, cs = us ++ r ∧ (∀ c ∈ us, isWordChar c = true) ∧
      ((∀ c ∈ us, c.toNat < 128) → us.map Char.toLower = ls) := by
  induction ls generalizing cs with
  | nil =>
    cases h
    exact ⟨[], rfl, by simp, fun _ => rfl⟩
  | cons l ls ih =>
    cases cs with
    | nil => cases h
    | cons c cs =>
      rw [afterLetters?] at h
      split at h
      · rename_i hc
        obtain ⟨us, rfl, hus, hmap⟩ := ih (fun x hx => hl x (.tail _ hx)) h
        refine ⟨c :: us, rfl, ?_, fun ha => ?_⟩
        · intro x hx
          rcases List.mem_cons.1 hx with rfl | hx
          · exact isWordChar_of_isLetter (hl l List.mem_cons_self) hc
          · exact hus x hx
        · have hlower : c.toLower = l := by
            simp only [isLetter, Bool.or_eq_true, Bool.and_eq_true, beq_iff_eq] at hc
            refine hc.resolve_right ?_
            rintro ⟨-, rfl⟩
            exact absurd (ha _ List.mem_cons_self) (by decide)
          rw [List.map_cons, hlower, hmap fun x hx => ha x (.tail _ hx)]
      · cases h

theorem afterLetters?_word (hl : ∀ l ∈ ls, l.isAlpha = true) (hw : ∀ c ∈ w, isWordChar c = true)
    (ha : ∀ c ∈ w, c.toNat < 128) (hm : ∀ c ∈ more.head?, isWordChar c = false)
    (h : afterLetters? ls (w ++ more) = some r) :
    (w.map Char.toLower = ls ∧ r = more) ∨ ∃ c ∈ r.head?, isWordChar c = true := by
  obtain ⟨us, he, hus, hmap⟩ := afterLetters?_eq_some hl h
  rcases List.append_eq_append_iff.1 he with ⟨x, rfl, hx⟩ | ⟨x, rfl, hx⟩
  · cases x with
    | nil => exact .inl ⟨by simpa using hmap (by simpa using ha), by simpa using hx.symm⟩
    | cons c x =>
      subst hx
      have hword := hus c (by simp)
      rw [hm c rfl] at hword
      cases hword
  · cases x with
    | nil => exact .inl ⟨by simpa using hmap fun c hc => ha c (by simpa using hc), by simpa using hx⟩
    | cons c x => exact .inr ⟨c, by rw [hx]; rfl, hw c (by simp)⟩

theorem afterLetters?_of_map (hw : w.map Char.toLower = ls) (more : List Char) :
    afterLetters? ls (w ++ more) = some more := by
  induction w generalizing ls with
  | nil =>
    subst hw
    cases more <;> rfl
  | cons c w ih =>
    subst hw
    rw [List.map_cons, List.cons_append, afterLetters?, if_pos (by simp [isLetter]), ih rfl]

end

theorem isWordChar_of_inWord {c : Char} (h : inWord c = true) (ha : c.toNat < 128) (hd : c ≠ '.') :
    isWordChar c = true := by
  have := forall_ascii (p := fun c => !inWord c || c == '.' || isWordChar c) (by decide +kernel) ha
  simpa [h, hd] using this

theorem Plain.isWordChar {s : String} (h : Plain s) (hin : ∀ c ∈ s.toList, inWord c = true) :
    ∀ c ∈ s.toList, isWordChar c = true := by
  intro c hc
  refine isWordChar_of_inWord (hin c hc) (h.1 c hc) ?_
  rintro rfl
  have := h.2
  simp [hasDot, hc] at this

section
variable {w us cs rest : List Char} {before : Option Char} {c : Char}

theorem afterRun?_isBlank_of_word (h : ∃ c ∈ cs.head?, isWordChar c = true) :
    afterRun? isBlank cs = none := by
  obtain ⟨c, hc, hw⟩ := h
  obtain ⟨more, rfl⟩ := List.head?_eq_some_iff.1 hc
  have hb : isBlank c = false := by
    by_contra hn
    rw [Bool.not_eq_false] at hn
    rw [(word_of_isBlank hn).2] at hw
    cases hw
  simp [afterRun?, hb]

theorem aliasAt?_word (hw : ∀ c ∈ w, isWordChar c = true) (ha : ∀ c ∈ w, c.toNat < 128)
    (hr : ∀ c ∈ rest.head?, isWordChar c = false) (hf : w.map Char.toLower ≠ ['f', 'r', 'o', 'm']) :
    aliasAt? (w ++ rest) = none := by
  unfold aliasAt?
  cases h : afterLetters? ['f', 'r', 'o', 'm'] (w ++ rest) with
  | none => rfl
  | some r =>
    obtain ⟨hmap, -⟩ | hword := afterLetters?_word (by simp) hw ha hr h
    · exact absurd hmap hf
    · simp [afterRun?_isBlank_of_word hword]

theorem aliasAt?_other (hc : isWordChar c = false) : aliasAt? (c :: cs) = none := by
  have hl : isLetter 'f' c = false := by
    by_contra hn
    rw [Bool.not_eq_false] at hn
    rw [isWordChar_of_isLetter (by decide) hn] at hc
    cases hc
  simp [aliasAt?, afterLetters?, hl]

theorem firstAlias?_other (hc : isWordChar c = false) :
    firstAlias? before (c :: cs) = firstAlias? (some c) cs := by
  rw [firstAlias?]
  split
  · rfl
  · rw [aliasAt?_other hc, Option.none_or]

theorem firstAlias?_inside (rest : List Char) (hus : ∀ c ∈ us, isWordChar c = true) {b : Char}
    (hb : isWordChar b = true) :
    firstAlias? (some b) (us ++ rest) = firstAlias? (us.getLast?.or (some b)) rest := by
  induction us generalizing b with
  | nil => rfl
  | cons c us ih =>
    rw [List.cons_append, firstAlias?, if_pos (by simpa using hb),
      ih (fun x hx => hus x (.tail _ hx)) (hus c List.mem_cons_self), getLast?_cons_or]

theorem firstAlias?_word (hw : ∀ c ∈ w, isWordChar c = true) (ha : ∀ c ∈ w, c.toNat < 128)
    (hr : ∀ c ∈ rest.head?, isWordChar c = false) (hf : w.map Char.toLower ≠ ['f', 'r', 'o', 'm']) :
    firstAlias? before (w ++ rest) = firstAlias? (w.getLast?.or before) rest := by
  cases w with
  | nil => rfl
  | cons c w =>
    have hrest := firstAlias?_inside rest (fun x hx => hw x (.tail _ hx))
      (hw c List.mem_cons_self)
    rw [List.cons_append, firstAlias?, getLast?_cons_or, ← hrest]
    split
    · rfl
    · rw [← List.cons_append, aliasAt?_word hw ha hr hf, Option.none_or]

end

def Token.Leading (t : Token) : Prop :=
  (∃ s, t = .word s ∧ Plain s ∧ foldCase s ≠ "from") ∨ t = .symbol .opening ∨ t = .symbol .closing

section
variable {cs rest : List Char} {ts us : List Token} {before : Option Char}

theorem isWordChar_of_mem_punctuation {c : Char} (h : c ∈ punctuation) : isWordChar c = false := by
  simp only [punctuation, List.mem_cons, List.not_mem_nil, or_false] at h
  obtain rfl | rfl | rfl | rfl | rfl | rfl | rfl | rfl | rfl | rfl := h
  all_goals rfl

theorem Lexes.isWordChar_head {sticks : Token → Char → Bool} (h : Lexes sticks rest cs ts)
    (hr : ∀ c ∈ rest.head?, inWord c = false → isWordChar c = false) :
    ∀ c ∈ (cs ++ rest).head?, inWord c = false → isWordChar c = false := by
  cases h with
  | nil => exact hr
  | blank hc => exact fun c hc' _ => by cases hc'; exact (word_of_isBlank hc).2
  | token hu =>
    obtain ⟨c, us, rfl, hc⟩ := hu.head
    intro x hx hin
    cases hx
    rcases hc with hc | hc
    · rw [hin] at hc
      cases hc
    · exact isWordChar_of_mem_punctuation hc

theorem Lexes.firstAlias?_leading (h : Lexes Token.extends rest cs ts)
    (hr : ∀ c ∈ rest.head?, inWord c = false → isWordChar c = false) (ht : ∀ t ∈ ts, t.Leading)
    (before : Option Char) :
    firstAlias? before (cs ++ rest) = firstAlias? (cs.getLast?.or before) rest := by
  induction h generalizing before with
  | nil => rfl
  | @blank c cs ts hc h ih =>
    rw [List.cons_append, firstAlias?_other (word_of_isBlank hc).2, ih ht, getLast?_cons_or]
  | @token us cs t ts hu hf h ih =>
    have htail := ih fun t hm => ht t (.tail _ hm)
    rw [List.append_assoc, getLast?_append_or, ← htail]
    obtain ⟨s, rfl, hs, hfrom⟩ | rfl | rfl := ht t List.mem_cons_self
    · have hword := hs.isWordChar hu.inWord_of_word
      cases hu with
      | @word c us hc hus =>
        have hascii := hs.1
        rw [String.toList_ofList] at hword hascii
        refine firstAlias?_word hword hascii
          (fun x hx => h.isWordChar_head hr x hx (hf x hx)) fun hmap => hfrom ?_
        rw [foldCase, String.toList_ofList, hmap]
    · obtain rfl := List.mem_singleton.1 (lexeme_symbol_iff.1 hu)
      exact firstAlias?_other rfl
    · obtain rfl := List.mem_singleton.1 (lexeme_symbol_iff.1 hu)
      exact firstAlias?_other rfl

theorem Lexes.isBlank_head {s : String} (h : Lexes Token.extends [] cs (.word s :: ts))
    (hf : ∀ c ∈ cs.head?, inWord c = false) : ∀ c ∈ cs.head?, isBlank c = true := by
  cases h with
  | blank hc => exact fun c hc' => by cases hc'; exact hc
  | token hu =>
    cases hu with
    | word hc =>
      have := hf _ rfl
      rw [inWord_of_startsWord hc] at this
      cases this

theorem Lexes.hop {s : String} (h : Lexes Token.extends [] cs (.word s :: ts)) (hs : Plain s)
    (hf : ∀ c ∈ cs.head?, inWord c = false) :
    ∃ bs more, cs = bs ++ (s.toList ++ more) ∧ bs ≠ [] ∧ (∀ c ∈ bs, isBlank c = true) ∧
      (∀ c ∈ s.toList, inWord c = true ∧ isWordChar c = true) ∧ s.toList ≠ [] ∧
      (∀ c ∈ more.head?, inWord c = false ∧ isWordChar c = false) ∧
      Lexes Token.extends [] more ts := by
  rw [← List.nil_append (Token.word s :: ts)] at h
  obtain ⟨bs, b, rfl, hbs, hb, hhead⟩ := h.split
  obtain ⟨us, more, rfl, hl, hm, hmore⟩ := hb.uncons hhead
  have hin := h.inWord_of_word List.mem_cons_self
  cases hl with
  | @word c us hc hus =>
    rw [List.append_nil] at hm
    refine ⟨bs, more, by rw [String.toList_ofList], ?_, lexes_nil_iff.1 hbs,
      fun x hx => ⟨hin x hx, hs.isWordChar hin x hx⟩, by simp, fun x hx => ?_, hmore⟩
    · rintro rfl
      have := hf c rfl
      rw [inWord_of_startsWord hc] at this
      cases this
    · refine ⟨hm x hx, ?_⟩
      have := hmore.isWordChar_head (by simp) x
      rw [List.append_nil] at this
      exact this hx (hm x hx)

theorem afterRun?_append {p : Char → Bool} {bs : List Char} (hne : bs ≠ [])
    (hb : ∀ c ∈ bs, p c = true) (hr : ∀ c ∈ rest.head?, p c = false) :
    afterRun? p (bs ++ rest) = some rest := by
  obtain ⟨ht, hd⟩ := span_append hb hr
  rw [afterRun?, ht, hd, if_neg (by simpa using hne)]

theorem isBlank_head_of_word {w : List Char} (rest : List Char) (hne : w ≠ []) (hw : ∀ c ∈ w, inWord c = true) :
    ∀ c ∈ (w ++ rest).head?, isBlank c = false := by
  cases w with
  | nil => exact absurd rfl hne
  | cons c w => exact fun x hx => by cases hx; exact not_isBlank_of_inWord (hw c List.mem_cons_self)

theorem blankWord?_of_lexes {s : String} (h : Lexes Token.extends [] cs (.word s :: ts))
    (hs : Plain s) (hf : ∀ c ∈ cs.head?, inWord c = false) : blankWord? cs = some s.toList := by
  obtain ⟨bs, more, rfl, hne, hb, hw, hwne, hm, -⟩ := h.hop hs hf
  have hblank := isBlank_head_of_word more hwne fun c hc => (hw c hc).1
  obtain ⟨ht, -⟩ := span_append (fun c hc => (hw c hc).2) fun c hc => (hm c hc).2
  have hnil : s.toList.isEmpty = false := by simpa using hwne
  simp only [blankWord?, afterRun?_append hne hb hblank, Option.bind_eq_bind, Option.bind_some, ht,
    hnil, Bool.false_eq_true, if_false]

theorem afterAs?_of_word {s : String} (h : Lexes Token.extends [] cs (.word s :: ts)) (hs : Plain s)
    (hf : ∀ c ∈ cs.head?, inWord c = false) (has : foldCase s ≠ "as") : afterAs? cs = none := by
  obtain ⟨bs, more, rfl, hne, hb, hw, hwne, hm, -⟩ := h.hop hs hf
  have hblank := isBlank_head_of_word more hwne fun c hc => (hw c hc).1
  simp only [afterAs?, afterRun?_append hne hb hblank, Option.bind_eq_bind, Option.bind_some]
  cases hl : afterLetters? ['a', 's'] (s.toList ++ more) with
  | none => rfl
  | some r =>
    obtain ⟨hmap, -⟩ | hword := afterLetters?_word (by simp) (fun c hc => (hw c hc).2) hs.1
      (fun c hc => (hm c hc).2) hl
    · exact absurd (by rw [foldCase, hmap]) has
    · obtain ⟨c, hc, hword⟩ := hword
      rw [Option.mem_def] at hc
      simp [hc, hword]

theorem afterAs?_of_as {s : String} (h : Lexes Token.extends [] cs (.word s :: ts)) (hs : Plain s)
    (hf : ∀ c ∈ cs.head?, inWord c = false) (has : foldCase s = "as") :
    ∃ more, afterAs? cs = some more ∧ (∀ c ∈ more.head?, inWord c = false) ∧
      Lexes Token.extends [] more ts := by
  obtain ⟨bs, more, rfl, hne, hb, hw, hwne, hm, hmore⟩ := h.hop hs hf
  have hblank := isBlank_head_of_word more hwne fun c hc => (hw c hc).1
  have hmap : s.toList.map Char.toLower = ['a', 's'] := by
    have := congrArg String.toList has
    rwa [foldCase, String.toList_ofList] at this
  have hend : more.head?.any isWordChar = false := by
    cases more with
    | nil => rfl
    | cons c more => simpa using (hm c rfl).2
  refine ⟨more, ?_, fun c hc => (hm c hc).1, hmore⟩
  simp [afterAs?, afterRun?_append hne hb hblank, afterLetters?_of_map hmap, hend]

/-- Where a source is written, its alias is found. -/
theorem aliasAt?_source {fs : List Char} {k : Token} {r : Criteria.Root}
    (hk : Lexeme fs k) (hfrom : k.isKeyword "from") (hs : Source us r)
    (h : Lexes Token.extends [] cs (us ++ ts)) (hf : ∀ c ∈ cs.head?, inWord c = false)
    (hw : ∀ s, .word s ∈ us → Plain s) : aliasAt? (fs ++ cs) = some r.aliasName.toList := by
  have hletters : fs.map Char.toLower = ['f', 'r', 'o', 'm'] := by
    obtain ⟨-, -, -, -, -, hfold, -⟩ := hk.of_isKeyword hfrom
    have := congrArg String.toList hfold
    rwa [foldCase, String.toList_ofList, String.toList_ofList] at this
  obtain ⟨has, hr, hd, he⟩ := hs
  rename_i entity a as flag
  rw [List.cons_append, List.append_assoc] at h
  obtain ⟨bs, more, rfl, hne, hb, hes, hesne, hm, hmore⟩ := h.hop (hw entity List.mem_cons_self) hf
  obtain ⟨s, vs, hnext⟩ : ∃ s vs, Lexes Token.extends [] more (.word s :: vs) := by
    cases has with
    | absent => exact ⟨a, ts, hmore⟩
    | @present t ht =>
      obtain ⟨s, rfl, -⟩ := Token.isKeyword_iff.1 ht
      exact ⟨s, _, hmore⟩
  have hentity : afterRun? inEntityName (entity.toList ++ more) = some more := by
    refine afterRun?_append hesne (fun c hc => ?_) fun c hc => ?_
    · simp [inEntityName, (hes c hc).2]
    · have hblank := hnext.isBlank_head (fun c hc => (hm c hc).1) c hc
      have hdot : c ≠ '.' := by
        rintro rfl
        cases hblank
      have hdollar : c ≠ '$' := by
        rintro rfl
        cases hblank
      simp [inEntityName, (hm c hc).2, hdot, hdollar]
  have hblank := isBlank_head_of_word more hesne fun c hc => (hes c hc).1
  have hmoref := fun c hc => (hm c hc).1
  have hsource : ((afterAs? more).bind blankWord?).or (blankWord? more) = some a.toList := by
    have ha : Plain a := hw a (by simp)
    cases has with
    | absent =>
      have hno : foldCase a ≠ "as" := by
        intro h
        simp [isReserved, isOneOf, h, reserved] at hr
      rw [afterAs?_of_word hmore ha hmoref hno, blankWord?_of_lexes hmore ha hmoref]
      rfl
    | @present t ht =>
      obtain ⟨s, rfl, hfold⟩ := Token.isKeyword_iff.1 ht
      obtain ⟨rest, hafter, hrest, hlex⟩ := afterAs?_of_as hmore (hw s (by simp)) hmoref hfold
      rw [hafter, Option.bind_some, blankWord?_of_lexes hlex ha hrest]
      rfl
  simp [aliasAt?, afterLetters?_of_map hletters, afterRun?_append hne hb hblank, hentity, hsource]

end

section
variable {cs : List Char} {ts us : List Token}

theorem Token.Selecting.leading {t : Token} (h : t.Selecting)
    (ha : ∀ s, t = .word s → ∀ c ∈ s.toList, c.toNat < 128) : t.Leading := by
  obtain ⟨k, hk, hs⟩ | ⟨a, rfl, hr, hd⟩ | h | h := h
  · obtain ⟨s, rfl, hfold⟩ := Token.isKeyword_iff.1 hs
    simp only [List.mem_cons, List.not_mem_nil, or_false] at hk
    obtain rfl | rfl | rfl := hk
    all_goals
      exact .inl ⟨s, rfl, ⟨ha s rfl, hasDot_of_foldCase hfold (by simp)⟩, by rw [hfold]; decide⟩
  · refine .inl ⟨a, rfl, ⟨ha a rfl, hd⟩, fun h => ?_⟩
    simp [isReserved, isOneOf, h, reserved] at hr
  · exact .inr (.inl h)
  · exact .inr (.inr h)

theorem Source.dotless {r : Criteria.Root} (h : Source us r) :
    ∀ s, .word s ∈ us → hasDot s = false := by
  obtain ⟨has, hr, hd, he⟩ := h
  intro s hs
  simp only [List.mem_cons, List.mem_append, List.not_mem_nil, or_false, Token.word.injEq] at hs
  obtain rfl | hs | rfl := hs
  · exact he
  · cases has with
    | absent => cases hs
    | present h =>
      obtain ⟨_, ht, hfold⟩ := Token.isKeyword_iff.1 (List.mem_singleton.1 hs ▸ h)
      cases ht
      exact hasDot_of_foldCase hfold (by simp)
  · exact hd

/-- In the text of a statement the pattern finds the alias of the first source. -/
theorem firstAlias?_of_states {q : Criteria.Query} (h : Lexes Token.extends [] cs ts)
    (hs : States ts q) (ha : ∀ s, .word s ∈ ts → ∀ c ∈ s.toList, c.toNat < 128)
    (hd : ∀ a flag, q.selection = some (.count a flag) → hasDot a = false) :
    ∃ r rest, q.roots = r :: rest ∧ firstAlias? none cs = some r.aliasName.toList := by
  obtain ⟨hselect, hk, hsources, -, -, -, -, -⟩ := hs
  rename_i select sources condition groups orders k
  have hfirst : ∃ r rest us vs, q.roots = r :: rest ∧ sources = us ++ vs ∧ Source us r := by
    generalize q.roots = roots at hsources
    cases hsources with
    | one hr => exact ⟨_, _, _, [], rfl, by simp, hr⟩
    | more hr => exact ⟨_, _, _, _, rfl, rfl, hr⟩
  obtain ⟨r, rest, us, vs, hroots, rfl, hsource⟩ := hfirst
  obtain ⟨a, b, rfl, hla, hlb, hhead⟩ := h.split
  obtain ⟨fs, more, rfl, hf, hm, hmore⟩ := hlb.uncons hhead
  rw [List.append_nil] at hla hm
  have hleading : ∀ t ∈ select, t.Leading := fun t ht =>
    (hselect.selecting hd t ht).leading fun s hs => ha s (by simp [← hs, ht])
  obtain ⟨c, ls, rfl, hc, -, -, hext⟩ := hf.of_isKeyword hk
  have hbefore : a.getLast?.any isWordChar = false := by
    obtain hclean | ⟨n, -, hnum, -⟩ := hla.clean_or_number (fun _ _ h => h) hc
    · cases hl : a.getLast? with
      | none => rfl
      | some x => simpa using (hclean x hl).2.1
    · obtain ⟨s, hs, -⟩ | hs | hs := hleading _ (List.mem_of_getLast? hnum)
      all_goals cases hs
  have hrest : ∀ x ∈ (c :: ls ++ more).head?, inWord x = false → isWordChar x = false := by
    intro x hx hin
    cases hx
    rw [inWord_of_startsWord hc] at hin
    cases hin
  have hmoref : ∀ x ∈ more.head?, inWord x = false := fun x hx => hext x ▸ hm x hx
  rw [List.append_assoc] at hmore
  have halias := aliasAt?_source hf hk hsource hmore hmoref fun s hs =>
    ⟨ha s (by simp [hs]), hsource.dotless s hs⟩
  refine ⟨r, rest, hroots, ?_⟩
  rw [hla.firstAlias?_leading hrest hleading, Option.or_none, List.cons_append, firstAlias?,
    if_neg (by simp [hbefore]), ← List.cons_append, halias, Option.some_or]

end

end EntityQuery.QueryText
