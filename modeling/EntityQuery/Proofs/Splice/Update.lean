import EntityQuery.Proofs.Splice.Sections
/-! Additions to text of any dialect as updates of its clauses: the clause scan reads the text with
the additions as the old clauses with a source and a condition more, and adding nothing twice is
adding it once. -/
namespace EntityQuery.QueryText
open Text

def headOf (c : Clauses) (text : List Char) : List Char :=
  trimEnd (text.take ((c.condition <|> c.tail).getD text.length))

def tailOf (c : Clauses) (text : List Char) : Option (List Char) :=
  c.tail.map fun t => trim (text.drop t)

def conjoined (old : Option (List Char)) (new : List Char) : Option (List Char) :=
  match old with
  | none => if new.isEmpty then none else some new
  | some old => if new.isEmpty then some old else some ('(' :: old ++ ") and ".toList ++ new)

/-- A text that closes what it opens and starts no clause. -/
structure Fragment (text : List Char) : Prop where
  closed : closes 0 false text = true
  clear : clear false (shownWords text) = true

section
variable {s : Nat} {us cs a b t text : List Char} {ws : List String}

theorem whereText_conjoined (old : Option (List Char)) (new : List Char) :
    whereText old new = (conjoined old new).elim [] fun k => " where ".toList ++ k := by
  unfold whereText conjoined
  cases old with
  | none => cases new <;> rfl
  | some old =>
    cases new with
    | nil => rfl
    | cons c cs => simp

theorem Sections.headOf (h : Sections s a b t) :
    headOf (Clauses.ofText (a ++ (b ++ t))) (a ++ (b ++ t)) = trimEnd a := by
  rw [h.ofText, QueryText.headOf, take_sources]

theorem Sections.conditionOf (h : Sections s a b t) :
    conditionOf (Clauses.ofText (a ++ (b ++ t))) (a ++ (b ++ t)) =
      if b = [] then none else some (trim (b.drop 5)) := by
  rw [h.ofText, conditionOf_append]

theorem Sections.tailOf (h : Sections s a b t) :
    tailOf (Clauses.ofText (a ++ (b ++ t))) (a ++ (b ++ t)) =
      if t = [] then none else some (trim t) := by
  rw [h.ofText, QueryText.tailOf]
  by_cases ht : t = []
  · simp only [if_pos ht, Option.map_none]
  · simp only [if_neg ht, Option.map_some, drop_tail]

theorem Fragment.trim (h : Fragment text) : Fragment (Text.trim text) :=
  ⟨closes_trim h.closed, by rw [shownWords_trim]; exact h.clear⟩

theorem Fragment.stands (h : Fragment text) : standsAt 0 false text = (0, false) :=
  standsAt_of_closes h.closed 0

/-- A text that closes what it opens does so on both sides of a seam. -/
theorem Seam.closes (h : Seam us cs) (hc : closes 0 false (us ++ cs) = true) :
    closes 0 false us = true ∧ closes 0 false cs = true := by
  by_cases hcs : cs = []
  · rw [hcs, List.append_nil] at hc
    exact ⟨hc, by rw [hcs]; rfl⟩
  · exact (closes_append_iff (h hcs).1).1 hc

theorem standsAt_of_inClauseWord (h : ∀ x ∈ us, inClauseWord x = true) (depth : Nat) :
    standsAt depth false us = (depth, false) := by
  induction us with
  | nil => rfl
  | cons c us ih =>
    obtain ⟨ho, hl, hq⟩ := ne_mark_of_inClauseWord (h c List.mem_cons_self)
    rw [standsAt, if_neg (by decide), if_neg ho, if_neg hl, beq_false_of_ne hq]
    exact ih fun x hx => h x (.tail _ hx)

theorem exists_word {w : String} (h : cs.head?.any inClauseWord = true)
    (hw : shownWords cs = w :: ws) :
    ∃ us rest, cs = us ++ rest ∧ foldCase (String.ofList us) = w ∧ shownWords rest = ws ∧
      standsAt 0 false us = (0, false) := by
  cases cs with
  | nil => cases h
  | cons c cs =>
    have hc : inClauseWord c = true := h
    have hshows := showsAt_first hc
    have hword : ∀ x ∈ c :: cs.takeWhile inClauseWord, inClauseWord x = true := by
      intro x hx
      rcases List.mem_cons.1 hx with rfl | hx
      · exact hc
      · exact List.mem_takeWhile_imp hx
    have hrest : (cs.dropWhile inClauseWord).head?.any inClauseWord = false := by
      cases hd : (cs.dropWhile inClauseWord).head? with
      | none => rfl
      | some x => exact head?_dropWhile x hd
    refine ⟨c :: cs.takeWhile inClauseWord, cs.dropWhile inClauseWord, ?_, ?_, ?_,
      standsAt_of_inClauseWord hword 0⟩
    · rw [List.cons_append, List.takeWhile_append_dropWhile]
    · rw [shownWords, topWords_cons, if_pos hshows] at hw
      exact (List.cons.inj hw).1
    · have hstep : standsAt 0 false [c] = (0, false) :=
        standsAt_of_inClauseWord (by simpa using hc) 0
      have hin : ∀ x ∈ cs.takeWhile inClauseWord, inWord x = true := fun x hx =>
        inWord_of_inName (List.mem_takeWhile_imp hx)
      have hsilent := topWords_silent 0 1 (cs.dropWhile inClauseWord) hin
        (.inl (inWord_of_inName hc))
      rw [List.takeWhile_append_dropWhile] at hsilent
      rw [shownWords, topWords_cons, if_pos hshows, hstep, Nat.zero_add, hsilent,
        topWords_markFirst hrest none] at hw
      rw [← (List.cons.inj hw).2]
      exact (map_snd_topWords _ _ detached_none _).symm

theorem Sections.condition_cut (h : Sections s a b t) (hb : b ≠ []) :
    ∃ us, b = us ++ b.drop 5 ∧ standsAt 0 false us = (0, false) ∧
      clear true (shownWords (b.drop 5)) = true := by
  obtain ⟨hfirst, ws, hws, hclear⟩ := h.condition.resolve_left hb
  obtain ⟨us, rest, rfl, hword, rfl, hstands⟩ := exists_word hfirst hws
  have hlen : us.length = 5 := by
    have := congrArg (·.toList.length) hword
    simpa [foldCase] using this
  have hdrop : (us ++ rest).drop 5 = rest := by rw [← hlen, List.drop_left]
  exact ⟨us, by rw [hdrop], hstands, by rw [hdrop]; exact hclear⟩

theorem shownWords_keyword (k : List Char) (hcs : Blanks cs) :
    shownWords ("where ".toList ++ (k ++ cs)) = "where" :: shownWords k := by
  have hseam : Seam "where ".toList (k ++ cs) := fun _ =>
    ⟨by decide +kernel, detached_of_isBlank (c := ' ') rfl⟩
  have hk : shownWords (k ++ cs) = shownWords k := by
    rw [shownWords, topWords_append_blanks hcs, shownWords]
  have hword : shownWords "where ".toList = ["where"] := by decide +kernel
  rw [shownWords_seam hseam, hk, hword]
  rfl

/-- Of a condition in parentheses with another one behind it, only the words of that are shown. -/
theorem shownWords_conjoined (hold : closes 0 false us = true) (new : List Char) :
    shownWords ('(' :: us ++ ") and ".toList ++ new) = "and" :: shownWords new := by
  have hseam : Seam " and ".toList new := fun _ =>
    ⟨by decide +kernel, detached_of_isBlank (c := ' ') rfl⟩
  have hword : shownWords " and ".toList = ["and"] := by decide +kernel
  have hstands : standsAt 1 false us = (1, false) := standsAt_of_closes hold 1
  have hsilent : topWords 1 1 false (some '(') us = [] := topWords_of_closes hold 1 0 _
  have hmark : inClauseWord ')' = false := by decide +kernel
  have hclose : ∀ pos before rest, topWords pos 1 false before (')' :: rest) =
      topWords (pos + 1) 0 false (some ')') rest := fun _ _ _ => topWords_mark hmark (by decide)
  have htext : '(' :: us ++ ") and ".toList ++ new =
      '(' :: (us ++ ')' :: (" and ".toList ++ new)) := by simp
  have hinner : ∀ rest, topWords 1 1 false (some '(') (us ++ ')' :: rest) =
      topWords (1 + us.length + 1) 0 false (some ')') rest := by
    intro rest
    rw [topWords_append 1 1 false _ (by intro; exact hmark), hsilent, hstands, List.nil_append,
      hclose]
  have hclosing : Detached (some ')') := ⟨hmark, by simp, by simp⟩
  rw [htext, shownWords, topWords_mark (by decide +kernel) (by decide), if_pos rfl, hinner,
    map_snd_topWords _ _ hclosing, shownWords_seam hseam, hword]
  rfl

theorem standsAt_conjoined (hold : closes 0 false us = true) {new : List Char}
    (hnew : standsAt 0 false new = (0, false)) :
    standsAt 0 false ('(' :: us ++ ") and ".toList ++ new) = (0, false) := by
  have hstands : standsAt 1 false us = (1, false) := standsAt_of_closes hold 1
  have hclose : standsAt 1 false ") and ".toList = (0, false) := by decide +kernel
  have hopen : standsAt 0 false ('(' :: us) = standsAt 1 false us := rfl
  rw [standsAt_append, standsAt_append, hopen, hstands, hclose, hnew]

end

def gap (cs : List Char) : List Char := if cs = [] then [] else [' ']

theorem blanks_gap (cs : List Char) : Blanks (gap cs) := by
  unfold gap
  split
  · simp [Blanks]
  · intro c hc
    obtain rfl := List.mem_singleton.1 hc
    rfl

def conditionSection (k : Option (List Char)) (t : List Char) : List Char :=
  k.elim [] fun k => "where ".toList ++ (k ++ gap t)

/-- A source that goes behind others. -/
structure Appended (src : List Char) : Prop where
  head : src.head?.any inClauseWord = false
  stands : standsAt 0 false src = (0, false)
  clear : clear false (shownWords src) = true
  no_by : (shownWords src).head? ≠ some "by"

section
variable {s : Nat} {us cs a b t src text : List Char} {ws : List String} {k : Option (List Char)}

theorem seam_gap (h : cs ≠ [] → standsAt 0 false us = (0, false)) : Seam (us ++ gap cs) cs := by
  intro hcs
  rw [standsAt_append_blanks (blanks_gap cs), gap, if_neg hcs, List.getLast?_append]
  exact ⟨h hcs, detached_of_isBlank (c := ' ') rfl⟩

theorem head?_trim (h : t.head?.any inClauseWord = true) : (trim t).head? = t.head? := by
  cases t with
  | nil => cases h
  | cons c t =>
    have hc : isBlank c = false := by
      by_contra hn
      rw [Bool.not_eq_false] at hn
      have hword : inClauseWord c = true := h
      rw [not_clause_of_inWord (not_inWord_of_isBlank hn)] at hword
      cases hword
    have htrim : trim (c :: t) = trimEnd (c :: t) := trim_of_head (by simpa using hc)
    have hne : trim (c :: t) ≠ [] := by
      intro hnil
      rw [trim_eq_nil_iff.1 hnil c List.mem_cons_self] at hc
      cases hc
    obtain ⟨more, hmore⟩ := trimEnd_prefix (c :: t)
    rw [← htrim] at hmore
    rw [← hmore, List.head?_append, hmore]
    cases hhead : trim (c :: t) with
    | nil => exact (hne hhead).elim
    | cons d ds => rfl

theorem Sections.trim_tail_nil_iff (h : Sections s a b t) : trim t = [] ↔ t = [] := by
  constructor
  · intro hnil
    refine h.tail.resolve_right fun hstarts => ?_
    have hhead := head?_trim hstarts.1
    rw [← hhead, hnil] at hstarts
    cases hstarts.1
  · rintro rfl
    rfl

theorem Appended.topWords (h : Appended src) (ha : src ≠ [] → standsAt 0 false a = (0, false)) :
    ∃ vs, topWords 0 0 false none (trimEnd a ++ src) = topWords 0 0 false none a ++ vs ∧
      vs.map (·.2) = shownWords src := by
  by_cases hsrc : src = []
  · rw [hsrc]
    exact ⟨[], by rw [List.append_nil, topWords_trimEnd, List.append_nil], rfl⟩
  · refine ⟨_, ?_, map_snd_topWords (0 + (trimEnd a).length) none detached_none src⟩
    rw [topWords_append 0 0 false none (fun _ => h.head), standsAt_trimEnd, ha hsrc,
      topWords_trimEnd, topWords_markFirst h.head none]

/-- A text with its sections exchanged is cut into those: a source may go behind the sources, and
any condition that starts no clause is one. -/
theorem Sections.replace (h : Sections s a b t) (hsrc : Appended src)
    (hk : ∀ x ∈ k, clear true (shownWords x) = true ∧ (t ≠ [] → standsAt 0 false x = (0, false)))
    (hopen : src ++ (conditionSection k (trim t) ++ trim t) ≠ [] →
      standsAt 0 false a = (0, false)) :
    Sections s (trimEnd a ++ (src ++ gap (conditionSection k (trim t) ++ trim t)))
      (conditionSection k (trim t)) (trim t) := by
  have hstands : conditionSection k (trim t) ++ trim t ≠ [] →
      standsAt 0 false (trimEnd a ++ src) = (0, false) := by
    intro hne
    have ha := hopen (by simp_all)
    rw [standsAt_append, standsAt_trimEnd, ha, hsrc.stands]
  rw [← List.append_assoc]
  constructor
  case source =>
    obtain ⟨us, vs, hwords, hus, hvs⟩ := h.source
    obtain ⟨ws, hws, hshown⟩ := hsrc.topWords fun hne => hopen (by simp [hne])
    refine ⟨us, vs ++ ws, ?_, hus, ?_⟩
    · rw [topWords_append_blanks (blanks_gap _), hws, hwords, List.append_assoc, List.cons_append]
    · rw [List.map_append, hshown]
      exact clear_append hvs hsrc.clear hsrc.no_by
  case source_end => exact seam_gap hstands
  case condition =>
    cases k with
    | none => exact .inl rfl
    | some x =>
      refine .inr ⟨?_, shownWords x, shownWords_keyword x (blanks_gap _), (hk x rfl).1⟩
      have hhead : ("where ".toList.head?).any inClauseWord = true := by decide +kernel
      exact hhead
  case condition_end =>
    cases k with
    | none => exact fun _ => ⟨rfl, detached_none⟩
    | some x =>
      have hkeyword : standsAt 0 false "where ".toList = (0, false) := by decide +kernel
      rw [conditionSection, Option.elim_some, ← List.append_assoc]
      refine seam_gap fun hne => ?_
      rw [standsAt_append, hkeyword]
      exact (hk x rfl).2 fun ht => hne (h.trim_tail_nil_iff.2 ht)
  case tail =>
    rcases h.tail with ht | ⟨hfirst, hstarts⟩
    · exact .inl (h.trim_tail_nil_iff.2 ht)
    · refine .inr ⟨?_, ?_⟩
      · rwa [head?_trim hfirst]
      · rwa [shownWords_trim]

def sourceText (source : List Char) : List Char :=
  if (trim source).isEmpty then [] else ", ".toList ++ trim source

/-- The clause scan reads `r` as `q` with the source `src` and the condition `cond` added. -/
structure Updated (q src cond r : List Char) : Prop where
  source : (Clauses.ofText r).source = (Clauses.ofText q).source
  head : headOf (Clauses.ofText r) r = headOf (Clauses.ofText q) q ++ sourceText src
  condition : conditionOf (Clauses.ofText r) r =
    conjoined (conditionOf (Clauses.ofText q) q) (trim cond)
  tail : tailOf (Clauses.ofText r) r = tailOf (Clauses.ofText q) q

structure OldCondition (b t x : List Char) : Prop where
  clear : clear true (shownWords x) = true
  stands : t ≠ [] → standsAt 0 false x = (0, false)
  closed : closes 0 false b = true → closes 0 false x = true
  trimmed : trim x = x

theorem Sections.oldCondition (h : Sections s a b t) (hb : b ≠ []) :
    OldCondition b t (trim (b.drop 5)) := by
  obtain ⟨us, hcut, hus, hclear⟩ := h.condition_cut hb
  constructor
  case clear => rwa [shownWords_trim]
  case stands =>
    intro ht
    have hstands := (h.condition_end ht).1
    rwa [hcut, standsAt_append, hus, ← standsAt_trim] at hstands
  case closed =>
    intro hclosed
    rw [hcut, closes_append_iff hus] at hclosed
    exact closes_trim hclosed.2
  case trimmed => exact trim_trim _

theorem Sections.addClauses (h : Sections s a b t) (source condition : List Char)
    (hk : conjoined (if b = [] then none else some (trim (b.drop 5))) (trim condition) = k) :
    addClauses (a ++ (b ++ t)) source condition =
      trimEnd a ++ (sourceText source ++ gap (conditionSection k (trim t) ++ trim t)) ++
        (conditionSection k (trim t) ++ trim t) := by
  rw [addClauses_of_clauses h.ofText, whereText_conjoined, hk]
  have htail : (if t = [] then [] else ' ' :: trim t) = gap (trim t) ++ trim t := by
    simp only [gap, h.trim_tail_nil_iff]
    split
    · rename_i ht
      rw [ht]
      rfl
    · rfl
  have hsource : (if (trim source).isEmpty then [] else ',' :: ' ' :: trim source) =
      sourceText source := rfl
  rw [htail, hsource, List.append_assoc, List.append_assoc]
  congr 2
  cases k with
  | none => rfl
  | some x =>
    have hne : conditionSection (some x) (trim t) ++ trim t ≠ [] := by
      simp [conditionSection]
    have hgap : gap (conditionSection (some x) (trim t) ++ trim t) = [' '] := if_neg hne
    rw [hgap]
    simp [conditionSection]

theorem condition_of_section (h : ∀ x ∈ k, trim x = x) (t : List Char) :
    (if conditionSection k t = [] then none else some (trim ((conditionSection k t).drop 5))) =
      k := by
  cases k with
  | none => rfl
  | some x =>
    have hne : conditionSection (some x) t ≠ [] := by simp [conditionSection]
    have hdrop : (conditionSection (some x) t).drop 5 = [' '] ++ (x ++ gap t) := by
      simp [conditionSection]
    have hblank : Blanks [' '] := by
      intro c hc
      obtain rfl := List.mem_singleton.1 hc
      rfl
    rw [if_neg hne, hdrop, trim_blanks_append hblank, trim_append_blanks (blanks_gap t), h x rfl]

theorem conjoined_nil (k : Option (List Char)) : conjoined k [] = k := by
  cases k <;> rfl

theorem Sections.updated {source condition : List Char} (h : Sections s a b t)
    (hk : conjoined (if b = [] then none else some (trim (b.drop 5))) (trim condition) = k)
    (htrimmed : ∀ x ∈ k, trim x = x)
    (hr : Sections s
      (trimEnd a ++ (sourceText source ++ gap (conditionSection k (trim t) ++ trim t)))
      (conditionSection k (trim t)) (trim t)) :
    Updated (a ++ (b ++ t)) source condition
      (QueryText.addClauses (a ++ (b ++ t)) source condition) := by
  rw [h.addClauses source condition hk]
  constructor
  case source => rw [hr.ofText, h.ofText]
  case head =>
    rw [hr.headOf, h.headOf, ← List.append_assoc, trimEnd_append_blanks (blanks_gap _)]
    refine trimEnd_eq_self fun c hc => ?_
    rw [sourceText] at hc
    split at hc
    · exact trimEnd_last a c (by simpa using hc)
    · rename_i hne
      rw [List.isEmpty_iff] at hne
      rw [← List.append_assoc, List.getLast?_append_of_ne_nil _ hne] at hc
      exact trim_last source c hc
  case condition =>
    rw [hr.conditionOf, h.conditionOf, hk, condition_of_section htrimmed]
  case tail =>
    rw [hr.tailOf, h.tailOf, trim_trim]
    simp only [h.trim_tail_nil_iff]

theorem appended_nil : Appended [] := ⟨rfl, rfl, rfl, by simp [shownWords, topWords]⟩

theorem Fragment.appended (h : Fragment text) (hby : (shownWords text).head? ≠ some "by") :
    Appended (sourceText text) := by
  unfold sourceText
  split
  · exact appended_nil
  · have hcomma : standsAt 0 false ", ".toList = (0, false) := by decide +kernel
    have hseam : Seam ", ".toList (Text.trim text) := fun _ =>
      ⟨hcomma, detached_of_isBlank (c := ' ') rfl⟩
    have hnothing : shownWords ", ".toList = [] := by decide +kernel
    have hshown : shownWords (", ".toList ++ Text.trim text) = shownWords text := by
      rw [shownWords_seam hseam, hnothing, shownWords_trim, List.nil_append]
    have hhead : (", ".toList.head?).any inClauseWord = false := by decide +kernel
    refine ⟨hhead, ?_, by rw [hshown]; exact h.clear, by rwa [hshown]⟩
    rw [standsAt_append, hcomma, h.trim.stands]

/-- Adding nothing leaves the sections, but for the blanks between them. -/
theorem Sections.normal (h : Sections s a b t)
    (hk : conjoined (if b = [] then none else some (trim (b.drop 5))) [] = k) :
    (∀ x ∈ k, trim x = x) ∧ Sections s
      (trimEnd a ++ (sourceText [] ++ gap (conditionSection k (trim t) ++ trim t)))
      (conditionSection k (trim t)) (trim t) := by
  have hold : ∀ x ∈ k, b ≠ [] ∧ OldCondition b t x := by
    rintro x rfl
    by_cases hb : b = []
    · simp [hb, conjoined] at hk
    · rw [if_neg hb] at hk
      cases hk
      exact ⟨hb, h.oldCondition hb⟩
  refine ⟨fun x hx => (hold x hx).2.trimmed, h.replace appended_nil
    (fun x hx => ⟨(hold x hx).2.clear, (hold x hx).2.stands⟩) fun hne => ?_⟩
  refine (h.source_end fun hnil => hne ?_).1
  obtain ⟨rfl, rfl⟩ := List.append_eq_nil_iff.1 hnil
  rw [if_pos rfl] at hk
  cases hk
  rfl

/-- Adding fragments to a text that closes what it opens exchanges its sections. -/
theorem Sections.added {source condition : List Char} (h : Sections s a b t)
    (hq : closes 0 false (a ++ (b ++ t)) = true) (hs : Fragment source)
    (hby : (shownWords source).head? ≠ some "by") (hc : Fragment condition)
    (hk : conjoined (if b = [] then none else some (trim (b.drop 5))) (trim condition) = k) :
    (∀ x ∈ k, trim x = x) ∧ Sections s
      (trimEnd a ++ (sourceText source ++ gap (conditionSection k (trim t) ++ trim t)))
      (conditionSection k (trim t)) (trim t) := by
  obtain ⟨ha, hbehind⟩ := h.source_end.closes hq
  obtain ⟨hclosed, -⟩ := h.condition_end.closes hbehind
  have hall : ∀ x ∈ k, trim x = x ∧ clear true (shownWords x) = true ∧
      (t ≠ [] → standsAt 0 false x = (0, false)) := by
    rintro x rfl
    cases hempty : (trim condition).isEmpty with
    | true =>
      -- Nothing is added to the condition.
      by_cases hb : b = []
      · simp [conjoined, hb, hempty] at hk
      · rw [if_neg hb, conjoined, hempty] at hk
        cases hk
        have hold := h.oldCondition hb
        exact ⟨hold.trimmed, hold.clear, hold.stands⟩
    | false =>
      have hne : trim condition ≠ [] := by simpa using hempty
      have hnew := hc.trim
      by_cases hb : b = []
      · rw [if_pos hb, conjoined, hempty] at hk
        cases hk
        exact ⟨trim_trim _, clear_found hnew.clear, fun _ => hnew.stands⟩
      · rw [if_neg hb, conjoined, hempty] at hk
        cases hk
        have hold := (h.oldCondition hb).closed hclosed
        refine ⟨trim_eq_self (by simp; rfl) (fun c hlast => ?_), ?_, fun _ =>
          standsAt_conjoined hold hnew.stands⟩
        · rw [List.getLast?_append_of_ne_nil _ hne] at hlast
          exact trim_last condition c hlast
        · rw [shownWords_conjoined hold, clear, clear_found hnew.clear]
          simp [startsClause]
  exact ⟨fun x hx => (hall x hx).1, h.replace (hs.appended hby) (fun x hx => (hall x hx).2)
    fun _ => standsAt_of_closes ha 0⟩

theorem Sections.addClauses_nil (h : Sections s a b t) :
    QueryText.addClauses (QueryText.addClauses (a ++ (b ++ t)) [] []) [] [] =
      QueryText.addClauses (a ++ (b ++ t)) [] [] := by
  obtain ⟨k, hk⟩ : ∃ k, conjoined (if b = [] then none else some (trim (b.drop 5))) [] = k :=
    ⟨_, rfl⟩
  obtain ⟨htrimmed, hr⟩ := h.normal hk
  have hagain : conjoined (if conditionSection k (trim t) = [] then none
      else some (trim ((conditionSection k (trim t)).drop 5))) [] = k := by
    rw [condition_of_section htrimmed, conjoined_nil]
  have hsource : sourceText [] = [] := rfl
  rw [h.addClauses [] [] hk, hr.addClauses [] [] hagain, trim_trim, hsource, List.nil_append,
    trimEnd_append_blanks (blanks_gap _), trimEnd_trimEnd]

/-- Adding to a text of any dialect updates its clauses, where what is added closes what it opens
and starts no clause, and adding nothing a second time changes nothing. -/
theorem addClauses_updates (q source condition : List Char) :
    ((Clauses.ofText q).source = none → addClauses q source condition = q) ∧
    ((Clauses.ofText q).source.isSome = true → closes 0 false q = true → Fragment source →
      (shownWords source).head? ≠ some "by" → Fragment condition →
      Updated q source condition (addClauses q source condition)) ∧
    addClauses (addClauses q [] []) [] [] = addClauses q [] [] := by
  have hnone : ∀ source condition, (Clauses.ofText q).source = none →
      addClauses q source condition = q := by
    intro source condition hs
    simp [QueryText.addClauses, hs]
  refine ⟨hnone source condition, fun hs hq hsource hby hcondition => ?_, ?_⟩
  · obtain ⟨s, hs⟩ := Option.isSome_iff_exists.1 hs
    obtain ⟨a, b, t, rfl, h⟩ := exists_sections hs
    obtain ⟨htrimmed, hr⟩ := h.added hq hsource hby hcondition rfl
    exact h.updated rfl htrimmed hr
  · cases hs : (Clauses.ofText q).source with
    | none => rw [hnone [] [] hs, hnone [] [] hs]
    | some s =>
      obtain ⟨a, b, t, rfl, h⟩ := exists_sections hs
      exact h.addClauses_nil

theorem addClauses_updates_subquery :
    (Clauses.ofText "from E e where e.x in (select m from M m) order by e.n".toList).source.isSome =
      true ∧
    closes 0 false "from E e where e.x in (select m from M m) order by e.n".toList = true ∧
    Fragment "T t".toList ∧ (shownWords "T t".toList).head? ≠ some "by" ∧
    Fragment "e.t = t.i".toList ∧
    Updated "from E e where e.x in (select m from M m) order by e.n".toList "T t".toList
      "e.t = t.i".toList
      (addClauses "from E e where e.x in (select m from M m) order by e.n".toList "T t".toList
        "e.t = t.i".toList) := by
  have hs : (Clauses.ofText
      "from E e where e.x in (select m from M m) order by e.n".toList).source.isSome = true := by
    decide +kernel
  have hq : closes 0 false "from E e where e.x in (select m from M m) order by e.n".toList =
      true := by decide +kernel
  have hsource : Fragment "T t".toList := ⟨by decide +kernel, by decide +kernel⟩
  have hby : (shownWords "T t".toList).head? ≠ some "by" := by decide +kernel
  have hcondition : Fragment "e.t = t.i".toList := ⟨by decide +kernel, by decide +kernel⟩
  exact ⟨hs, hq, hsource, hby, hcondition,
    (addClauses_updates _ _ _).2.1 hs hq hsource hby hcondition⟩

/-- It is the first word that is shown which must not be `by`: behind an `order` that ends the
sources it makes an ordering of them, whatever stands before it in parentheses. -/
theorem not_updated_of_hidden :
    (Clauses.ofText "from E order".toList).source = some 0 ∧
    closes 0 false "from E order".toList = true ∧ Fragment "(x) by".toList ∧
    foldCase (String.ofList ("(x) by".toList.takeWhile inClauseWord)) ≠ "by" ∧ Fragment [] ∧
    ¬ Updated "from E order".toList "(x) by".toList []
      (addClauses "from E order".toList "(x) by".toList []) := by
  refine ⟨by decide +kernel, by decide +kernel, ⟨by decide +kernel, by decide +kernel⟩,
    by decide +kernel, ⟨by decide +kernel, by decide +kernel⟩, fun h => ?_⟩
  have htail := h.tail
  revert htail
  decide +kernel

end

end EntityQuery.QueryText
