import EntityQuery.Proofs.Grammar.Refused
import EntityQuery.Proofs.Splice.Statement
/-! Texts in which the clause scan finds other clauses than the parser: those with a source whose
entity is called as a clause, and those whose tail is glued to a number. When a condition is added
to such a text, nothing can be read from what comes out. -/
namespace EntityQuery.QueryText
open Criteria Text Evaluation

def Token.Listing (es : List Expression) : Token → Prop
  | .word s => foldCase s ∈ ["by", "asc", "desc"] ∨ .path (pathOf s) ∈ es
  | .symbol s => s = .comma
  | _ => False

section
variable {es fs : List Expression} {t : Token} {ts : List Token}

theorem Token.Listing.mono (h : t.Listing es) (hs : es ⊆ fs) : t.Listing fs := by
  cases t with
  | word s => exact h.imp id fun hp => hs hp
  | _ => exact h

theorem Token.Listing.word_or_comma (h : t.Listing es) :
    (∃ s, t = .word s) ∨ t = .symbol .comma := by
  cases t with
  | word s => exact .inl ⟨s, rfl⟩
  | symbol s =>
    obtain rfl : s = .comma := h
    exact .inr rfl
  | _ => cases h

theorem Token.Listing.quiet (h : t.Listing es)
    (hc : ∀ s, t = .word s → ∀ c ∈ s.toList, inWord c = true)
    (hes : ∀ p, .path p ∈ es → isReserved p.aliasName = false) : t.Quiet := by
  rintro s rfl
  obtain h | h := h
  · exact quiet_of_foldCase h (by simp [clauseWords]) s rfl
  · exact quiet_of_path (hc s rfl) (hes _ h) s rfl

theorem Token.listing_of_isKeyword {k : String} (h : t.isKeyword k) (hk : k ∈ ["by", "asc", "desc"]) :
    t.Listing es := by
  obtain ⟨s, rfl, rfl⟩ := Token.isKeyword_iff.1 h
  exact .inl hk

theorem PathName.listing {e : Expression} (h : PathName ts e) : ∀ t ∈ ts, t.Listing [e] := by
  obtain ⟨-⟩ := h
  intro t ht
  obtain rfl := List.mem_singleton.1 ht
  exact .inr (.head _)

theorem Ordered.listing {o : Order} (h : Ordered ts o) : ∀ t ∈ ts, t.Listing [o.expression] := by
  cases h with
  | plain h => exact h.listing
  | asc h hk | desc h hk =>
    intro t ht
    rcases List.mem_append.1 ht with ht | ht
    · exact h.listing t ht
    · obtain rfl := List.mem_singleton.1 ht
      exact Token.listing_of_isKeyword hk (by simp)

theorem Listed.listing {α : Type} {item : List Token → α → Prop} (f : α → Expression)
    (hitem : ∀ ts a, item ts a → ∀ t ∈ ts, t.Listing [f a]) {as : List α} (h : Listed item ts as) :
    ∀ t ∈ ts, t.Listing (as.map f) := by
  induction h with
  | one h => exact hitem _ _ h
  | more h hs ih =>
    intro t ht
    simp only [List.mem_append, List.mem_cons] at ht
    obtain ht | rfl | ht := ht
    · exact (hitem _ _ h t ht).mono (by simp)
    · rfl
    · exact (ih t ht).mono (by simp)

theorem ByClause.listing {α : Type} {word : String} {item : List Token → α → Prop}
    (f : α → Expression) (hitem : ∀ ts a, item ts a → ∀ t ∈ ts, t.Listing [f a]) {as : List α}
    (h : ByClause word item ts as) :
    ts = [] ∨ ∃ k us, ts = k :: us ∧ k.isKeyword word ∧ ∀ t ∈ us, t.Listing (as.map f) := by
  cases h with
  | absent => exact .inl rfl
  | present hk hb hl =>
    refine .inr ⟨_, _, rfl, hk, fun t ht => ?_⟩
    rcases List.mem_cons.1 ht with rfl | ht
    · exact Token.listing_of_isKeyword hb (by simp)
    · exact hl.listing f hitem t ht

end

section
variable {q : Query} {select sources condition groups orders : List Token} {k : Token}

theorem Parts.tail_split (h : Parts q select k sources condition groups orders) :
    groups ++ orders = [] ∨ ∃ g us rest word, groups ++ orders = g :: us ++ rest ∧
      g.isKeyword word ∧ (word = "group" ∨ word = "order") ∧
      (∀ t ∈ us, t.Listing q.expressions) ∧
      (rest = [] ∨ ∃ o b more, rest = o :: b :: more ∧ o.isKeyword "order" ∧ b.isKeyword "by") := by
  have hgroup : q.groupBy.map id ⊆ q.expressions := by
    intro e he
    rw [List.map_id] at he
    exact mem_expressions.2 (.inr (List.mem_append_left _ he))
  have horder : q.orders.map (·.expression) ⊆ q.expressions := fun e he =>
    mem_expressions.2 (.inr (List.mem_append_right _ he))
  obtain rfl | ⟨g, us, rfl, hg, hus⟩ := h.groups.listing id fun _ _ h => h.listing
  · obtain rfl | ⟨g, us, rfl, hg, hus⟩ :=
      h.orders.listing (·.expression) fun _ _ h => h.listing
    · exact .inl rfl
    · exact .inr ⟨g, us, [], _, by simp, hg, .inr rfl, fun t ht => (hus t ht).mono horder, .inl rfl⟩
  · exact .inr ⟨g, us, orders, _, rfl, hg, .inl rfl, fun t ht => (hus t ht).mono hgroup,
      h.orders.shape⟩

theorem depth_of_listing {es : List Expression} {us : List Token} (h : ∀ t ∈ us, t.Listing es)
    (d : Nat) : us.foldl Token.depth d = d := by
  induction us with
  | nil => rfl
  | cons t us ih =>
    have ht : t.depth d = d := by
      obtain ⟨s, rfl⟩ | rfl := (h t List.mem_cons_self).word_or_comma
      all_goals rfl
    rw [List.foldl_cons, ht]
    exact ih fun t ht => h t (.tail _ ht)

open Clauses in
/-- A keyword behind a character of a word is no clause, nor is the list behind it. -/
theorem ofWords_glued {cl : Clauses} (hs : cl.source.isSome) (ht : cl.tail = none) {c d : List Char}
    {g : Token} {us rest : List Token} {word : String} {es : List Expression}
    (hc : Lexes Token.extends d c (g :: us)) (hcs : ∀ x ∈ c.head?, isBlank x = false)
    (hd : Lexes Token.extends [] d rest) (hds : ∀ x ∈ d.head?, isBlank x = false)
    (hg : g.isKeyword word) (hus : ∀ t ∈ us, t.Listing es)
    (hes : ∀ p, .path p ∈ es → isReserved p.aliasName = false)
    (hrest : rest = [] ∨
      ∃ o b more, rest = o :: b :: more ∧ o.isKeyword "order" ∧ b.isKeyword "by") {x : Char}
    (hx : inWord x = true) (pos : Nat) :
    cl.ofWords (topWords pos 0 false (some x) (c ++ d)) =
      { cl with tail := if d = [] then none else some (pos + c.length) } := by
  have hnumber : ∀ n, (g :: us).getLast? ≠ some (.number n) := by
    intro n hn
    rcases List.mem_cons.1 (List.mem_of_getLast? hn) with rfl | hmem
    · cases hg
    · obtain ⟨s, hs⟩ | hs := (hus _ hmem).word_or_comma
      all_goals cases hs
  have hclean : ∀ y ∈ d.head?, startsWord y = true → Clean c.getLast? := by
    intro y hy hsy
    obtain ⟨ys, rfl⟩ := List.head?_eq_some_iff.1 hy
    obtain hclean | ⟨n, -, hn, -⟩ := hc.clean_or_number (fun _ _ h => h) hsy
    · exact hclean
    · exact (hnumber n hn).elim
  obtain ⟨ls, more, rfl, hl, -, hmore⟩ := hc.uncons hcs
  obtain ⟨y, ys, rfl, hy, hys, -⟩ := hl.of_isKeyword hg
  have hword : ∀ z ∈ y :: ys, inWord z = true := by
    intro z hz
    rcases List.mem_cons.1 hz with rfl | hz
    · exact inWord_of_startsWord hy
    · exact hys z hz
  have hsilent := topWords_silent 0 pos (more ++ d) hword (.inl hx)
  obtain ⟨ws, he, hws⟩ := hmore.topWords_quiet
    (fun t ht => (hus t ht).quiet (fun s hs => hmore.inWord_of_word (hs ▸ ht)) hes)
    (pos + (y :: ys).length) 0 ((y :: ys).getLast?.or (some x))
  rw [List.append_assoc, hsilent, he, ofWords_append_of_quiet hws, depth_of_listing hus]
  obtain rfl | ⟨o, b, os, rfl, ho, hb⟩ := hrest
  · obtain rfl := hd.nil_of_starts hds
    rw [topWords, ofWords, if_pos rfl, ← ht]
  · have hne : d ≠ [] := by
      rintro rfl
      cases hd.eq_nil
    have hbefore : Clean (more.getLast?.or ((y :: ys).getLast?.or (some x))) := by
      rw [List.getLast?_cons, Option.some_or]
      obtain ⟨ks, ms, rfl, hk, -, -⟩ := hd.uncons hds
      obtain ⟨z, zs, rfl, hz, -⟩ := hk.of_isKeyword ho
      have := hclean z rfl hz
      rwa [List.getLast?_append, List.getLast?_cons] at this
    rw [if_neg hne, Clauses.ofWords_tail hd hds ho (.inr rfl) hb hbefore hs ht, List.length_append,
      Nat.add_assoc]

variable {source cond a b c : List Char} {us new : List Token} {ds : List Predicate}

/-- A keyword behind a number is no clause, nor is the list behind it: the tail is found where it goes
on with another keyword, if it does. -/
theorem Parts.ofText_glued (h : Parts q select k sources condition groups orders) (hq : Regular q)
    (he : ∀ r ∈ q.roots, Distinct r) {c d : List Char}
    (hc : Cut Token.extends a b (c ++ d) (select ++ k :: sources) condition (groups ++ orders))
    (hglued : ¬ Clean (b.getLast?.or a.getLast?)) {g : Token} {gs rest : List Token} {word : String}
    (hlc : Lexes Token.extends d c (g :: gs)) (hld : Lexes Token.extends [] d rest)
    (hds : ∀ x ∈ d.head?, isBlank x = false) (hg : g.isKeyword word)
    (hgs : ∀ t ∈ gs, t.Listing q.expressions)
    (hrest : rest = [] ∨
      ∃ o b more, rest = o :: b :: more ∧ o.isKeyword "order" ∧ b.isKeyword "by") :
    c ≠ [] ∧ b ≠ [] ∧ ∃ pos, Clauses.ofText (a ++ (b ++ (c ++ d))) =
      { source := some pos
        condition := some a.length
        tail := if d = [] then none else some (a.length + (b ++ c).length) } := by
  obtain ⟨pos, hof⟩ := h.ofText_condition hq he hc
  have hcs : ∀ x ∈ c.head?, isBlank x = false := by
    cases c with
    | nil => simp
    | cons x c => exact hc.tail_starts
  obtain ⟨ls, more, rfl, hl, -, -⟩ := hlc.uncons hcs
  obtain ⟨y, ys, rfl, hy, -⟩ := hl.of_isKeyword hg
  -- The tail is glued to a number, which belongs to the condition.
  obtain hclean | ⟨n, x, hn, hx, hin, -⟩ :=
    (hc.head.append hc.condition).clean_or_number (fun _ _ h => h) hy
  · rw [List.getLast?_append] at hclean
    exact (hglued hclean).elim
  rw [List.getLast?_append] at hx
  have hbne : b ≠ [] := by
    intro hb
    rw [hc.condition_nil_iff.1 hb, List.append_nil] at hn
    exact h.not_number hq (List.Subset.refl _) n (List.mem_of_getLast? hn)
  refine ⟨by simp, hbne, pos, ?_⟩
  rw [hof, hx, ofWords_glued rfl rfl hlc hcs hld hds hg hgs hq.paths hrest hin, if_neg hbne]
  simp only [List.length_append, Nat.add_assoc]

/-- Nothing is read from a text whose tail is glued to a number, once a condition is added to it:
the tail goes into the parentheses. -/
theorem Parts.glued_refused (h : Parts q select k sources condition groups orders) (hq : Regular q)
    (he : ∀ r ∈ q.roots, Distinct r)
    (hc : Cut Token.extends a b c (select ++ k :: sources) condition (groups ++ orders))
    (hne : c ≠ []) (hglued : ¬ Clean (b.getLast?.or a.getLast?))
    (hsource : Lexes Token.extends [] source []) (hcond : Lexes Token.extends [] cond us)
    (hd : Disjunction us ds) (hnew : scan (addClauses (a ++ (b ++ c)) source cond) = .ok new)
    (p : Query) : query new ≠ .ok p := by
  obtain hnil | ⟨g, gs, rest, word, htail, hg, hword, hgs, hrest⟩ := h.tail_split
  · exact (hne (hc.tail_nil_iff.2 hnil)).elim
  have hlexes := hc.tail
  rw [htail] at hlexes
  obtain ⟨c, d, rfl, hlc, hld, hds⟩ := hlexes.split
  rw [List.append_nil] at hlc
  obtain ⟨-, hbne, pos, hof⟩ := h.ofText_glued hq he hc hglued hlc hld hds hg hgs hrest
  obtain ⟨hnil, -⟩ | ⟨w, ws, ps, rfl, hw, hws, -⟩ := h.condition.shape
  · exact (hbne (hc.condition_nil_iff.2 hnil)).elim
  have hcut : Cut Token.extends a (b ++ c) d (select ++ k :: sources) (w :: (ws ++ g :: gs)) rest :=
    ⟨by simpa using hc.head, by simpa using hc.condition.append hlc, hld,
      by simpa [hbne] using hc.condition_starts, hds⟩
  have hclauses : Clauses.ofText (a ++ ((b ++ c) ++ d)) =
      { source := some pos
        condition := if b ++ c = [] then none else some a.length
        tail := if d = [] then none else some (a.length + (b ++ c).length) } := by
    have hcondition : b ++ c ≠ [] := by simp [hbne]
    rw [List.append_assoc, hof, if_neg hcondition]
  have hlexes := hcut.addClauses separated_extends hclauses (by simpa using hw) hsource hcond
  rw [List.append_assoc] at hlexes
  rw [scan_eq_ok_iff.2 hlexes] at hnew
  obtain rfl := Except.ok.inj hnew
  have htokens : select ++ k :: sources ++ (sourceTokens [] ++
      (conditionTokens (w :: (ws ++ g :: gs)) us ++ rest)) =
      select ++ k :: (sources ++ .word "where" :: .symbol .opening ::
        (ws ++ g :: (gs ++ .symbol .closing :: .word "and" :: (us ++ rest)))) := by
    simp [sourceTokens, conditionTokens, hd.ne_nil]
  rw [htokens]
  exact query_unclosed h.select h.source h.sources (isKeyword_reserved (by decide)) hws hg hword p

theorem Listed.misread {roots : List Root} (h : Listed Source us roots)
    (hc : ∀ s, .word s ∈ us → ∀ c ∈ s.toList, inWord c = true) :
    (∀ r ∈ roots, Distinct r) ∨ ∃ vs entity rest, us = vs ++ .word entity :: rest ∧
      (foldCase entity = "where" ∨ foldCase entity = "having") ∧
      (vs = [] ∨ ∃ ls rs, vs = ls ++ [.symbol .comma] ∧ Listed Source ls rs) ∧
      Idle (vs.filterMap Token.shown) := by
  have hnamed : ∀ {ts r}, Source ts r → ¬ Distinct r → ∃ entity rest, ts = .word entity :: rest ∧
      (foldCase entity = "where" ∨ foldCase entity = "having") := by
    intro ts r h hr
    cases h
    rw [Distinct, not_and_or, not_not, not_not] at hr
    exact ⟨_, _, rfl, hr⟩
  induction h with
  | @one ts r h =>
    by_cases hr : Distinct r
    · exact .inl (by simpa using hr)
    · obtain ⟨entity, rest, rfl, he⟩ := hnamed h hr
      exact .inr ⟨[], entity, rest, rfl, he, .inl rfl, trivial⟩
  | @more ts us r rs h hs ih =>
    by_cases hr : Distinct r
    · obtain hrs | ⟨vs, entity, rest, rfl, he, hvs, hidle⟩ := ih fun s hs => hc s (by simp [hs])
      · exact .inl (by simpa using ⟨hr, hrs⟩)
      · refine .inr ⟨ts ++ .symbol .comma :: vs, entity, rest, by simp, he, .inr ?_, ?_⟩
        · obtain rfl | ⟨ls, rs, rfl, hls⟩ := hvs
          · exact ⟨ts, _, rfl, .one h⟩
          · exact ⟨ts ++ .symbol .comma :: ls, _, by simp, .more h hls⟩
        · rw [List.filterMap_append, List.filterMap_cons]
          exact (h.idle (fun s hs => hc s (by simp [hs])) hr.1 hr.2).append hidle
    · obtain ⟨entity, rest, rfl, he⟩ := hnamed h hr
      exact .inr ⟨[], entity, rest ++ .symbol .comma :: us, by simp, he, .inl rfl, trivial⟩

namespace Clauses
variable {c : Clauses}

theorem ofWords_of_condition (ws : List (Nat × String)) (hs : c.source.isSome) (hc : c.condition.isSome) :
    (c.ofWords ws).source.isSome ∧ (c.ofWords ws).condition = c.condition := by
  induction ws generalizing c with
  | nil => exact ⟨hs, rfl⟩
  | cons w ws ih =>
    have hnote : ∀ next, (c.note w.1 w.2 next).source = c.source ∧
        (c.note w.1 w.2 next).condition = c.condition := by
      intro next
      unfold note
      split_ifs
      all_goals simp_all
    obtain ⟨hs', hc'⟩ := hnote (ws.head?.map (·.2))
    rw [← hs'] at hs
    rw [← hc'] at hc
    obtain ⟨h₁, h₂⟩ := ih hs hc
    exact ⟨h₁, h₂.trans hc'⟩

end Clauses

theorem addClauses_of_condition (hs : (Clauses.ofText (a ++ b)).source.isSome)
    (hc : (Clauses.ofText (a ++ b)).condition = some a.length) (hsource : Text.trim source = [])
    (hcond : Text.trim cond ≠ []) :
    ∃ more, addClauses (a ++ b) source cond =
      Text.trimEnd a ++ (' ' :: (['w', 'h', 'e', 'r', 'e'] ++ [' ', '(']) ++ more) := by
  have hnone : (Clauses.ofText (a ++ b)).source.isNone = false := by
    rw [Option.isNone_eq_false_iff]
    exact hs
  have hhead : (a ++ b).take ((some a.length <|> (Clauses.ofText (a ++ b)).tail).getD
      (a ++ b).length) = a := List.take_left
  have hempty : (Text.trim cond).isEmpty = false := by simpa using hcond
  unfold QueryText.addClauses
  dsimp only
  simp only [hnone, hhead, hsource, conditionOf, hc, Option.map_some, whereText, hempty,
    List.isEmpty_nil, Bool.false_eq_true, if_false, if_true, List.append_nil, List.append_assoc]
  exact ⟨_, rfl⟩

theorem Parts.ofText_misread (h : Parts q select k sources condition groups orders) (hq : Regular q)
    {vs ts : List Token} {entity : String} (hvs : vs ⊆ sources)
    (hidle : Idle (vs.filterMap Token.shown)) (ha : Lexes Token.extends b a (select ++ k :: vs))
    (hb : Lexes Token.extends [] b (.word entity :: ts)) (hbs : ∀ x ∈ b.head?, isBlank x = false) :
    (foldCase entity = "where" → (Clauses.ofText (a ++ b)).source.isSome ∧
      (Clauses.ofText (a ++ b)).condition = some a.length) ∧
    (foldCase entity = "having" →
      ∃ pos, Clauses.ofText (a ++ b) = { source := some pos, tail := some a.length }) := by
  obtain ⟨pos, hof⟩ := h.ofText_sources hq ha hvs hidle
  obtain ⟨ls, more, rfl, hl, hf, -⟩ := hb.uncons hbs
  have hkeyword : ∀ w, foldCase entity = w → Token.isKeyword w (.word entity) := by
    rintro w rfl
    simp [Token.isKeyword]
  have hclean : Clean a.getLast? := by
    obtain ⟨x, xs, rfl, hx, -⟩ := hl.of_isKeyword (hkeyword _ rfl)
    exact h.clean hq hvs ha hx
  refine ⟨fun hw => ?_, fun hh => ⟨pos, ?_⟩⟩
  · have hnote : ∀ next, Clauses.note { source := some pos } a.length "where" next =
        { source := some pos, condition := some a.length } := fun _ => rfl
    rw [hof, topWords_keyword hl (hkeyword _ hw) (by simpa using hf) (by simp) hclean,
      Clauses.ofWords, hnote]
    exact Clauses.ofWords_of_condition _ rfl rfl
  · have hnote : ∀ next, Clauses.note { source := some pos } a.length "having" next =
        { source := some pos, tail := some a.length } := fun _ => rfl
    rw [hof, topWords_keyword hl (hkeyword _ hh) (by simpa using hf) (by simp) hclean,
      Clauses.ofWords, hnote, Clauses.ofWords_of_tail rfl rfl]

/-- Nothing is read from a text with a source whose entity is called as a clause, once a condition
is added to it: a condition comes in the place of an alias. -/
theorem Parts.misread_refused (h : Parts q select k sources condition groups orders) (hq : Regular q)
    (he : ¬ ∀ r ∈ q.roots, Distinct r) {text : List Char}
    (hlexes : Lexes Token.extends [] text
      (select ++ k :: (sources ++ (condition ++ (groups ++ orders)))))
    (hsource : Lexes Token.extends [] source []) (hcond : Lexes Token.extends [] cond us)
    (hd : Disjunction us ds) (hnew : scan (addClauses text source cond) = .ok new) (p : Query) :
    query new ≠ .ok p := by
  obtain hdistinct | ⟨vs, entity, rest, hsources, hentity, hvs, hidle⟩ :=
    h.sources.misread fun s hs => hlexes.inWord_of_word (by simp [hs])
  · exact (he hdistinct).elim
  have htokens : select ++ k :: (sources ++ (condition ++ (groups ++ orders))) =
      (select ++ k :: vs) ++ .word entity :: (rest ++ (condition ++ (groups ++ orders))) := by
    simp [hsources]
  have hsub : vs ⊆ sources := by simp [hsources]
  rw [htokens] at hlexes
  obtain ⟨a, b, rfl, hla, hlb, hbs⟩ := hlexes.split
  rw [List.append_nil] at hla
  obtain ⟨hwhere, hhaving⟩ := h.ofText_misread hq hsub hidle hla hlb hbs
  have hne : Text.trim cond ≠ [] := fun hnil => hd.ne_nil (hcond.trim_nil_iff.1 hnil)
  have hblank : Text.trim source = [] := hsource.trim_nil_iff.2 rfl
  rcases hentity with hw | hh
  · -- The entity is taken for the keyword of a condition, and parentheses follow it.
    obtain ⟨hs, hc⟩ := hwhere hw
    obtain ⟨rest', hadd⟩ := addClauses_of_condition hs hc hblank hne
    have hmark : Lexes Token.extends rest' ['('] [.symbol .opening] :=
      Lexes.nil.mark separated_extends (by simp) rfl
    have hfront := ((hla.trimEnd (separated_extends.loose (by simp) _)).append
      ((hmark.cons separated_extends lexeme_where).space)).scan_append
    rw [List.append_assoc] at hfront
    rw [hadd, hfront] at hnew
    obtain ⟨ts, -, rfl⟩ := map_eq_ok_iff.1 hnew
    have hopening : Misplaced (.symbol .opening :: ts) := .of_head (by simp)
    simpa using query_misplaced h.select h.source hvs "where" hopening p
  · -- The entity is taken for the tail, and the condition comes before it.
    obtain ⟨pos, hof⟩ := hhaving hh
    have hbne : b ≠ [] := by
      rintro rfl
      cases hlb.eq_nil
    have hcut : Cut Token.extends a [] b (select ++ k :: vs) []
        (.word entity :: (rest ++ (condition ++ (groups ++ orders)))) :=
      ⟨hla, .nil, hlb, by simp, hbs⟩
    have hclauses : Clauses.ofText (a ++ ([] ++ b)) =
        { source := some pos
          condition := none
          tail := if b = [] then none else some (a.length + 0) } := by
      simpa [hbne] using hof
    have hlexes := hcut.addClauses separated_extends hclauses (by simp) hsource hcond
    rw [scan_eq_ok_iff.2 (by simpa using hlexes)] at hnew
    obtain rfl := Except.ok.inj hnew
    simpa [sourceTokens, conditionTokens, hd.ne_nil] using
      query_misplaced h.select h.source hvs "where" (hd.misplaced _) p

end

end EntityQuery.QueryText
