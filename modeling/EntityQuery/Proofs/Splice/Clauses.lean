import EntityQuery.Proofs.Grammar.Content
import EntityQuery.Proofs.Grammar.Statement
import EntityQuery.Proofs.Splice.Words
/-! The clauses that the clause scan finds in the text of a statement. -/
namespace EntityQuery.QueryText
open Criteria Text

section
variable {s : String} {cs : List Char} {t : Token} {ts : List Token}

theorem toNat_of_toLower_isAlpha {c : Char} (h : c.toLower.isAlpha = true) : c.toNat < 128 := by
  by_cases hu : c.val ≥ 'A'.val ∧ c.val ≤ 'Z'.val
  · have := UInt32.le_iff_toNat_le.1 hu.2
    exact Nat.lt_of_le_of_lt this (by decide)
  · rw [Char.toLower, dif_neg hu] at h
    simp only [Char.isAlpha, Char.isUpper, Char.isLower, Bool.or_eq_true, Bool.and_eq_true,
      decide_eq_true_eq] at h
    rcases h with h | h
    · have := UInt32.le_iff_toNat_le.1 h.2
      exact Nat.lt_of_le_of_lt this (by decide)
    · have := UInt32.le_iff_toNat_le.1 h.2
      exact Nat.lt_of_le_of_lt this (by decide)

theorem inName_of_toLower {c : Char} (h : c.toLower.isAlpha = true) : inName c = true := by
  have := forall_ascii (p := fun c => !c.toLower.isAlpha || inName c) (by decide +kernel)
    (toNat_of_toLower_isAlpha h)
  simpa [h] using this

theorem headWord_of_forall (h : ∀ c ∈ s.toList, inClauseWord c = true) : headWord s = foldCase s := by
  rw [headWord, List.takeWhile_eq_self_iff.2 h, String.ofList_toList]

theorem headWord_of_foldCase {k : String} (h : foldCase s = k)
    (hk : ∀ c ∈ k.toList, c.isAlpha = true) : headWord s = k := by
  rw [headWord_of_forall, h]
  intro c hc
  refine inName_of_toLower (hk _ ?_)
  rw [← h, foldCase, String.toList_ofList]
  exact List.mem_map_of_mem hc

theorem headWord_of_dotless (h : ∀ c ∈ s.toList, inWord c = true) (hd : hasDot s = false) :
    headWord s = foldCase s := by
  refine headWord_of_forall fun c hc => ?_
  have hin := h c hc
  simp only [inWord, Bool.or_eq_true, beq_iff_eq] at hin
  refine hin.resolve_right ?_
  rintro rfl
  simp [hasDot, hc] at hd

theorem pathOf_aliasName (s : String) :
    (pathOf s).aliasName = String.ofList (s.toList.takeWhile (· ≠ '.')) := by
  unfold pathOf
  dsimp only
  split
  · rename_i h
    rw [List.takeWhile_eq_self_iff.2 (List.dropWhile_eq_nil_iff.1 h), String.ofList_toList]
  · rfl

theorem headWord_of_path (h : ∀ c ∈ s.toList, inWord c = true) :
    headWord s = foldCase (pathOf s).aliasName := by
  rw [headWord, pathOf_aliasName]
  congr 2
  generalize s.toList = cs at h
  induction cs with
  | nil => rfl
  | cons c cs ih =>
    have hc : inClauseWord c = decide (c ≠ '.') := by
      by_cases hdot : c = '.'
      · subst hdot
        decide +kernel
      · have hin := h c List.mem_cons_self
        simp only [inWord, Bool.or_eq_true, beq_iff_eq, hdot, or_false] at hin
        rw [show inClauseWord c = true from hin]
        simpa using hdot
    rw [List.takeWhile_cons, List.takeWhile_cons, hc, ih fun x hx => h x (.tail _ hx)]

theorem not_clauseWord_of_isReserved (h : isReserved s = false) : foldCase s ∉ clauseWords := by
  have hsub : ∀ w ∈ clauseWords, w ∈ reserved := by decide
  have hr : foldCase s ∉ reserved := by simpa [isReserved, isOneOf] using h
  exact fun hm => hr (hsub _ hm)

theorem quiet_of_foldCase {ws : List String} (hs : foldCase s ∈ ws)
    (hws : ∀ w ∈ ws, (∀ c ∈ w.toList, c.isAlpha = true) ∧ w ∉ clauseWords) :
    (Token.word s).Quiet := by
  rintro _ ⟨⟩
  obtain ⟨hletters, hclause⟩ := hws _ hs
  rwa [headWord_of_foldCase rfl hletters]

theorem quiet_of_path (hs : ∀ c ∈ s.toList, inWord c = true)
    (hr : isReserved (pathOf s).aliasName = false) : (Token.word s).Quiet := by
  rintro _ ⟨⟩
  rw [headWord_of_path hs]
  exact not_clauseWord_of_isReserved hr

/-- Operands and connectives start no clause when their aliases are not reserved. -/
theorem Token.Within.quiet {es : List Expression} (h : t.Within es)
    (hc : ∀ s, t = .word s → ∀ c ∈ s.toList, inWord c = true)
    (hes : ∀ p, .path p ∈ es → isReserved p.aliasName = false) : t.Quiet := by
  rintro s rfl
  rcases h with h | ⟨-, hp⟩
  · exact quiet_of_foldCase h (by simp [connectives, clauseWords]) s rfl
  · exact quiet_of_path (hc s rfl) (hes _ hp) s rfl

end

section
variable {d : Nat} {ts : List Token}

theorem Operand.depth {t : Token} {e : Expression} (h : Operand t e) : t.depth d = d := by
  cases h <;> rfl

theorem depth_of_isKeyword {t : Token} {k : String} (h : t.isKeyword k) : t.depth d = d := by
  obtain ⟨s, rfl, -⟩ := Token.isKeyword_iff.1 h
  rfl

theorem Relation.depth {p : Predicate} (h : Relation ts p) : ts.foldl Token.depth d = d := by
  cases h with
  | comparison hl op hr => simp only [List.foldl, hl.depth, hr.depth]; rfl
  | like hl hk hr => simp only [List.foldl, hl.depth, depth_of_isKeyword hk, hr.depth]
  | notLike hl hn hk hr =>
    simp only [List.foldl, hl.depth, depth_of_isKeyword hn, depth_of_isKeyword hk, hr.depth]
  | isNull hl hi hk => simp only [List.foldl, hl.depth, depth_of_isKeyword hi, depth_of_isKeyword hk]
  | isNotNull hl hi hn hk =>
    simp only [List.foldl, hl.depth, depth_of_isKeyword hi, depth_of_isKeyword hn,
      depth_of_isKeyword hk]

end

mutual

/-- A condition closes the parentheses it opens. -/
theorem Disjunction.depth {ts : List Token} {ps : List Predicate} (h : Disjunction ts ps) (d : Nat) :
    ts.foldl Token.depth d = d := by
  match h with
  | .one h => exact h.depth d
  | .more h hk hs =>
    rw [List.foldl_append, List.foldl_cons, h.depth, depth_of_isKeyword hk, hs.depth]

theorem Conjunction.depth {ts : List Token} {ps : List Predicate} (h : Conjunction ts ps) (d : Nat) :
    ts.foldl Token.depth d = d := by
  match h with
  | .one h => exact h.depth d
  | .more h hk hs =>
    rw [List.foldl_append, List.foldl_cons, h.depth, depth_of_isKeyword hk, hs.depth]

theorem Negation.depth {ts : List Token} {p : Predicate} (h : Negation ts p) (d : Nat) :
    ts.foldl Token.depth d = d := by
  match h with
  | .not hk h => rw [List.foldl_cons, depth_of_isKeyword hk, h.depth]
  | .group h =>
    rw [List.foldl_cons, List.foldl_append, h.depth]
    rfl
  | .relation h => exact h.depth

end

def Token.Selecting (t : Token) : Prop :=
  (∃ k ∈ ["select", "distinct", "count"], t.isKeyword k) ∨
    (∃ a, t = .word a ∧ isReserved a = false ∧ hasDot a = false) ∨
      t = .symbol .opening ∨ t = .symbol .closing

section
variable {ts : List Token} {distinct : Bool} {s : Option Selection}

theorem Optional.selecting {flag : Bool} (h : Optional "distinct" ts flag) :
    ∀ t ∈ ts, t.Selecting := by
  cases h with
  | absent => simp
  | present h =>
    intro t ht
    obtain rfl := List.mem_singleton.1 ht
    exact .inl ⟨_, by simp, h⟩

theorem SelectClause.selecting (h : SelectClause ts distinct s)
    (hd : ∀ a flag, s = some (.count a flag) → hasDot a = false) : ∀ t ∈ ts, t.Selecting := by
  cases h with
  | absent => simp
  | @present k us vs flag s hk hdist hs =>
    intro t ht
    rcases List.mem_cons.1 ht with rfl | ht
    · exact .inl ⟨_, by simp, hk⟩
    rcases List.mem_append.1 ht with ht | ht
    · exact hdist.selecting t ht
    cases hs with
    | @source a hr hda =>
      obtain rfl := List.mem_singleton.1 ht
      exact .inr (.inl ⟨a, rfl, hr, hda⟩)
    | @count k d flag a hk hdist hr =>
      simp only [List.mem_cons, List.mem_append, List.not_mem_nil, or_false] at ht
      obtain rfl | rfl | ht | rfl | rfl := ht
      · exact .inl ⟨_, by simp, hk⟩
      · exact .inr (.inr (.inl rfl))
      · exact hdist.selecting t ht
      · exact .inr (.inl ⟨a, rfl, hr, hd a flag rfl⟩)
      · exact .inr (.inr (.inr rfl))

theorem Optional.depth {k : String} {flag : Bool} (h : Optional k ts flag) (d : Nat) :
    ts.foldl Token.depth d = d := by
  cases h with
  | absent => rfl
  | present h => exact depth_of_isKeyword h

theorem SelectClause.depth (h : SelectClause ts distinct s) (d : Nat) :
    ts.foldl Token.depth d = d := by
  cases h with
  | absent => rfl
  | present hk hdist hs =>
    rw [List.foldl_cons, depth_of_isKeyword hk, List.foldl_append, hdist.depth]
    cases hs with
    | source => rfl
    | count hk hdist =>
      rw [List.foldl_cons, depth_of_isKeyword hk, List.foldl_cons, List.foldl_append, hdist.depth]
      rfl

theorem Token.Selecting.quiet {t : Token} (h : t.Selecting)
    (hc : ∀ s, t = .word s → ∀ c ∈ s.toList, inWord c = true) : t.Quiet := by
  rintro s rfl
  obtain ⟨k, hk, hs⟩ | ⟨a, ha, hr, hd⟩ | h | h := h
  · obtain ⟨_, ⟨⟩, rfl⟩ := Token.isKeyword_iff.1 hs
    exact quiet_of_foldCase hk (by simp [clauseWords]) s rfl
  · cases ha
    rw [headWord_of_dotless (hc s rfl) hd]
    exact not_clauseWord_of_isReserved hr
  · cases h
  · cases h

end

def Idle : List String → Prop
  | [] => True
  | w :: rest => w ≠ "where" ∧ w ≠ "having" ∧
    ((w = "group" ∨ w = "order") → ∃ v ∈ rest.head?, v ≠ "by") ∧ Idle rest

theorem Idle.append {vs ws : List String} (hv : Idle vs) (hw : Idle ws) : Idle (vs ++ ws) := by
  induction vs with
  | nil => exact hw
  | cons v vs ih =>
    obtain ⟨h₁, h₂, h₃, h₄⟩ := hv
    refine ⟨h₁, h₂, fun h => ?_, ih h₄⟩
    obtain ⟨u, hu, hby⟩ := h₃ h
    obtain ⟨us, rfl⟩ := List.head?_eq_some_iff.1 hu
    exact ⟨u, rfl, hby⟩

section
variable {ts : List Token}

theorem Source.words {r : Root} (h : Source ts r) : ∀ t ∈ ts, ∃ s, t = .word s := by
  obtain ⟨has, -, -, -⟩ := h
  intro t ht
  simp only [List.mem_cons, List.mem_append, List.not_mem_nil, or_false] at ht
  obtain rfl | ht | rfl := ht
  · exact ⟨_, rfl⟩
  · cases has with
    | absent => cases ht
    | present h =>
      obtain rfl := List.mem_singleton.1 ht
      obtain ⟨s, rfl, -⟩ := Token.isKeyword_iff.1 h
      exact ⟨s, rfl⟩
  · exact ⟨_, rfl⟩

theorem Listed.words {roots : List Root} (h : Listed Source ts roots) :
    ∀ t ∈ ts, (∃ s, t = .word s) ∨ t = .symbol .comma :=
  h.tokens (fun _ _ hr t ht => .inl (hr.words t ht)) (.inr rfl)

/-- A source leaves the clauses as they are, whatever keyword its entity is called by, but for two
that the scan takes for clauses of their own. -/
theorem Source.idle {r : Root} (h : Source ts r) (hc : ∀ s, .word s ∈ ts → ∀ c ∈ s.toList, inWord c = true)
    (hw : foldCase r.entity ≠ "where") (hh : foldCase r.entity ≠ "having") :
    Idle (ts.filterMap Token.shown) := by
  obtain ⟨has, hr, hd, he⟩ := h
  rename_i entity a as flag
  have hentity : headWord entity = foldCase entity :=
    headWord_of_dotless (hc entity (by simp)) he
  have halias : headWord a = foldCase a := headWord_of_dotless (hc a (by simp)) hd
  have hclause := not_clauseWord_of_isReserved hr
  have hby : foldCase a ≠ "by" := by
    intro h
    simp [isReserved, isOneOf, h, reserved] at hr
  simp only [clauseWords, List.mem_cons, List.not_mem_nil, or_false, not_or] at hclause
  obtain ⟨-, h₂, h₃, h₄, h₅⟩ := hclause
  have hlast : Idle [foldCase a] := ⟨h₂, h₃, fun h => by simp [h₄, h₅] at h, trivial⟩
  cases has with
  | absent =>
    simp only [List.nil_append, List.filterMap_cons, Token.shown, hentity, halias,
      List.filterMap_nil]
    exact ⟨hw, hh, fun _ => ⟨_, rfl, hby⟩, hlast⟩
  | @present t ht =>
    obtain ⟨s, rfl, hfold⟩ := Token.isKeyword_iff.1 ht
    have has : headWord s = "as" := headWord_of_foldCase hfold (by simp)
    simp only [List.cons_append, List.nil_append, List.filterMap_cons, Token.shown, hentity, halias,
      has, List.filterMap_nil]
    exact ⟨hw, hh, fun _ => ⟨_, rfl, by decide⟩, by decide, by decide,
      fun h => by simp at h, hlast⟩

theorem Listed.idle {roots : List Root} (h : Listed Source ts roots)
    (hc : ∀ s, .word s ∈ ts → ∀ c ∈ s.toList, inWord c = true)
    (he : ∀ r ∈ roots, foldCase r.entity ≠ "where" ∧ foldCase r.entity ≠ "having") :
    Idle (ts.filterMap Token.shown) := by
  induction h with
  | one h =>
    obtain ⟨hw, hh⟩ := he _ List.mem_cons_self
    exact h.idle hc hw hh
  | more h hs ih =>
    obtain ⟨hw, hh⟩ := he _ List.mem_cons_self
    rw [List.filterMap_append, List.filterMap_cons]
    exact (h.idle (fun s hs => hc s (by simp [hs])) hw hh).append
      (ih (fun s hs => hc s (by simp [hs])) fun r hr => he r (.tail _ hr))

end

section
variable {us rest : List Char} {k : Token} {word : String} {before : Option Char}

theorem Lexeme.of_isKeyword (hu : Lexeme us k) (hk : k.isKeyword word) :
    ∃ c cs, us = c :: cs ∧ startsWord c = true ∧ (∀ x ∈ cs, inWord x = true) ∧
      foldCase (String.ofList us) = word ∧ ∀ x, k.extends x = inWord x := by
  obtain ⟨s, rfl, hfold⟩ := Token.isKeyword_iff.1 hk
  cases hu with
  | word hc hcs => exact ⟨_, _, rfl, hc, hcs, hfold, fun _ => rfl⟩

theorem topWords_keyword (hu : Lexeme us k) (hk : k.isKeyword word)
    (hf : ∀ x ∈ rest.head?, k.extends x = false) (hword : ∀ c ∈ word.toList, c.isAlpha = true)
    (hb : Clean before) (pos : Nat) :
    topWords pos 0 false before (us ++ rest) =
      (pos, word) :: topWords (pos + us.length) 0 false (us.getLast?.or before) rest := by
  obtain ⟨c, cs, rfl, hc, hcs, hfold, hext⟩ := hu.of_isKeyword hk
  rw [topWords_word (inName_of_startsWord hc) hcs hb fun x hx => hext x ▸ hf x hx,
    headWord_of_foldCase hfold hword]

end

namespace Clauses
variable {c : Clauses} {ws us : List (Nat × String)}

theorem note_of_quiet {word : String} (h : word ∉ clauseWords) (pos : Nat) (next : Option String) :
    c.note pos word next = c := by
  simp only [clauseWords, List.mem_cons, List.not_mem_nil, or_false, not_or] at h
  obtain ⟨h₁, h₂, h₃, h₄, h₅⟩ := h
  simp [note, h₁, h₂, h₃, h₄, h₅]

theorem ofWords_append_of_quiet (h : ∀ w ∈ ws, w.2 ∉ clauseWords) :
    ofWords c (ws ++ us) = ofWords c us := by
  induction ws with
  | nil => rfl
  | cons w ws ih =>
    rw [List.cons_append, ofWords, note_of_quiet (h w List.mem_cons_self)]
    exact ih fun v hv => h v (.tail _ hv)

theorem ofWords_append_of_idle (hs : c.source.isSome) (h : Idle (ws.map (·.2))) :
    ofWords c (ws ++ us) = ofWords c us := by
  induction ws with
  | nil => rfl
  | cons w ws ih =>
    obtain ⟨h₁, h₂, h₃, h₄⟩ := h
    have hnote : c.note w.1 w.2 ((ws ++ us).head?.map (·.2)) = c := by
      have hsource : c.source.isNone = false := by
        rw [Option.isNone_eq_false_iff]
        exact hs
      by_cases hby : w.2 = "group" ∨ w.2 = "order"
      · -- What follows is part of the sources, and no `by`.
        obtain ⟨v, hv, hne⟩ := h₃ hby
        obtain ⟨u, hu, rfl⟩ := Option.map_eq_some_iff.1 (by rwa [List.head?_map] at hv)
        obtain ⟨vs, rfl⟩ := List.head?_eq_some_iff.1 hu
        simp [note, hsource, h₁, h₂, hne]
      · have hnot := not_or.1 hby
        simp [note, hsource, h₁, h₂, hnot]
    rw [List.cons_append, ofWords, hnote]
    exact ih h₄

theorem ofWords_of_tail (hs : c.source.isSome) (ht : c.tail.isSome) : ofWords c ws = c := by
  induction ws with
  | nil => rfl
  | cons w ws ih =>
    have hsource : c.source.isNone = false := by
      rw [Option.isNone_eq_false_iff]
      exact hs
    have hnote : c.note w.1 w.2 (ws.head?.map (·.2)) = c := by
      simp [note, hsource, ht]
    rw [ofWords, hnote, ih]

theorem ofWords_of_source (hs : c.source.isSome) (ws : List (Nat × String)) :
    (c.ofWords ws).source = c.source := by
  induction ws generalizing c with
  | nil => rfl
  | cons w ws ih =>
    have hnote : ∀ next, (c.note w.1 w.2 next).source = c.source := by
      intro next
      unfold note
      split_ifs
      all_goals simp_all
    rw [ofWords, ih (by rw [hnote]; exact hs), hnote]

section
variable {rest head cond tail : List Char} {ts us : List Token} {k : Token}

theorem ofText_keyword {a ls more : List Char} (ha : Lexes Token.extends (ls ++ more) a ts)
    (hq : ∀ t ∈ ts, t.Quiet) (hd : ts.foldl Token.depth 0 = 0)
    (hn : ∀ n, ts.getLast? ≠ some (.number n)) (hl : Lexeme ls k)
    (hf : ∀ x ∈ more.head?, k.extends x = false) (hk : k.isKeyword "from") :
    ofText (a ++ (ls ++ more)) = ofWords { source := some a.length }
      (topWords (a.length + ls.length) 0 false (ls.getLast?.or a.getLast?) more) := by
  obtain ⟨vs, hv, hquiet⟩ := ha.topWords_quiet hq 0 0 none
  have hclean : Clean a.getLast? := by
    obtain ⟨c, cs, rfl, hc, -⟩ := hl.of_isKeyword hk
    obtain hclean | ⟨n, -, hnum, -⟩ := ha.clean_or_number (fun _ _ h => h) hc
    · exact hclean
    · exact (hn n hnum).elim
  have hnote : ∀ next, note {} a.length "from" next = { source := some a.length } := fun _ => rfl
  rw [ofText, hv, hd, ofWords_append_of_quiet hquiet, Nat.zero_add, Option.or_none,
    topWords_keyword hl hk hf (by simp) hclean, ofWords, hnote]

theorem ofText_sources (h : Lexes Token.extends rest head (ts ++ k :: us))
    (hq : ∀ t ∈ ts, t.Quiet) (hd : ts.foldl Token.depth 0 = 0)
    (hn : ∀ n, ts.getLast? ≠ some (.number n)) (hk : k.isKeyword "from")
    (hw : ∀ t ∈ us, (∃ s, t = .word s) ∨ t = .symbol .comma)
    (hi : Idle (us.filterMap Token.shown)) :
    ∃ p, ofText (head ++ rest) =
      ofWords { source := some p } (topWords head.length 0 false head.getLast? rest) := by
  obtain ⟨a, b, rfl, ha, hb, hhead⟩ := h.split
  obtain ⟨ls, more, rfl, hl, hf, hmore⟩ := hb.uncons hhead
  rw [List.append_assoc] at ha
  have hnext : ∀ c ∈ (more ++ rest).head?, startsWord c = true →
      Clean (ls.getLast?.or a.getLast?) := by
    intro c hc hs
    obtain ⟨-, -, -, -, -, -, hext⟩ := hl.of_isKeyword hk
    have := hf c hc
    rw [hext, inWord_of_startsWord hs] at this
    cases this
  obtain ⟨ws, he, hws⟩ := hmore.topWords_words hw (a.length + ls.length) _ hnext
  refine ⟨a.length, ?_⟩
  rw [List.append_assoc, List.append_assoc, ofText_keyword ha hq hd hn hl hf hk, he,
    ofWords_append_of_idle rfl (by rwa [hws]), ← getLast?_append_or, ← List.getLast?_append,
    List.length_append, List.length_append, Nat.add_assoc]

theorem ofWords_condition (h : Lexes Token.extends tail cond (k :: ts))
    (hhead : ∀ c ∈ cond.head?, isBlank c = false) (hk : k.isKeyword "where")
    (hq : ∀ t ∈ ts, t.Quiet) (hd : ts.foldl Token.depth 0 = 0) {before : Option Char}
    (hb : Clean before) {c : Clauses} (hs : c.source.isSome) (hc : c.condition = none)
    (ht : c.tail = none) (pos : Nat) :
    ofWords c (topWords pos 0 false before (cond ++ tail)) =
      ofWords { c with condition := some pos }
        (topWords (pos + cond.length) 0 false (cond.getLast?.or before) tail) := by
  obtain ⟨ls, more, rfl, hl, hf, hmore⟩ := h.uncons hhead
  obtain ⟨ws, he, hws⟩ := hmore.topWords_quiet hq (pos + ls.length) 0 (ls.getLast?.or before)
  have hsource : c.source.isNone = false := by
    rw [Option.isNone_eq_false_iff]
    exact hs
  have hnote : ∀ next, c.note pos "where" next = { c with condition := some pos } := by
    intro next
    simp [note, hsource, hc, ht]
  rw [List.append_assoc, topWords_keyword hl hk hf (by simp) hb, he, hd, ofWords, hnote,
    ofWords_append_of_quiet hws, getLast?_append_or, List.length_append, Nat.add_assoc]

theorem ofWords_tail {b : Token} {word : String} (h : Lexes Token.extends [] tail (k :: b :: ts))
    (hhead : ∀ c ∈ tail.head?, isBlank c = false) (hk : k.isKeyword word)
    (hword : word = "group" ∨ word = "order") (hby : b.isKeyword "by") {before : Option Char}
    (hb : Clean before) {c : Clauses} (hs : c.source.isSome) (ht : c.tail = none) (pos : Nat) :
    ofWords c (topWords pos 0 false before tail) = { c with tail := some pos } := by
  obtain ⟨ls, more, rfl, hl, hf, hmore⟩ := h.uncons hhead
  rw [← List.singleton_append] at hmore
  obtain ⟨d, e, rfl, hd, -, -⟩ := hmore.split
  have hnext : ∀ c ∈ (d ++ (e ++ [])).head?, startsWord c = true → Clean (ls.getLast?.or before) := by
    intro c hc hs
    obtain ⟨-, -, -, -, -, -, hext⟩ := hl.of_isKeyword hk
    have := hf c (by simpa using hc)
    rw [hext, inWord_of_startsWord hs] at this
    cases this
  obtain ⟨s, rfl, hfold⟩ := Token.isKeyword_iff.1 hby
  have hshown : headWord s = "by" := headWord_of_foldCase hfold (by simp)
  obtain ⟨ws, he, hws⟩ := hd.topWords_words (by simp) (pos + ls.length) _ hnext
  obtain ⟨w, rfl, hby⟩ : ∃ w, ws = [w] ∧ w.2 = "by" := by
    simp only [List.filterMap_cons, Token.shown, hshown, List.filterMap_nil] at hws
    obtain ⟨w, rfl, hw⟩ := List.map_eq_singleton_iff.1 hws
    exact ⟨w, rfl, hw⟩
  have hsource : c.source.isNone = false := by
    rw [Option.isNone_eq_false_iff]
    exact hs
  have hnote : c.note pos word (some "by") = { c with tail := some pos } := by
    rcases hword with rfl | rfl <;> simp [note, hsource, ht]
  have hletters : ∀ c ∈ word.toList, c.isAlpha = true := by
    rcases hword with rfl | rfl <;> simp
  rw [List.append_nil] at he
  rw [topWords_keyword hl hk (by simpa using hf) hletters hb, he, ofWords, List.singleton_append,
    List.head?_cons, Option.map_some, hby, hnote]
  exact ofWords_of_tail hs rfl

end

end Clauses

end EntityQuery.QueryText
