import EntityQuery.Proofs.Splice.Addition
import EntityQuery.Proofs.Splice.Scanning
/-! Text of any dialect as its sections: what comes up to the end of the sources, the condition, and
what follows the condition. The clause scan finds the sections of a text that is cut into them, and
every text with sources is cut into its sections. -/
namespace EntityQuery.QueryText
open Text

/-- Whether a clause behind the sources starts with the first of the words. Once a condition is
`found`, no further one starts. -/
def startsClause (found : Bool) : List String → Bool
  | [] => false
  | w :: ws => !found && w = "where" || w = "having" ||
    (w = "group" || w = "order") && ws.head? == some "by"

def clear (found : Bool) : List String → Bool
  | [] => true
  | w :: ws => !startsClause found (w :: ws) && clear found ws

section
variable {found : Bool} {w : String} {ws vs : List String}

theorem startsClause_of_found (h : startsClause true ws = true) : startsClause found ws = true := by
  cases ws with
  | nil => cases h
  | cons w ws =>
    simp only [startsClause, Bool.not_true, Bool.false_and, Bool.false_or] at h
    rw [startsClause, Bool.or_assoc, h, Bool.or_true]

theorem clear_found (h : clear false ws = true) : clear true ws = true := by
  induction ws with
  | nil => rfl
  | cons w ws ih =>
    simp only [clear, Bool.and_eq_true, Bool.not_eq_eq_eq_not, Bool.not_true] at h ⊢
    refine ⟨?_, ih h.2⟩
    by_contra hn
    rw [Bool.not_eq_false] at hn
    rw [startsClause_of_found hn] at h
    cases h.1

theorem clear_append (hv : clear found vs = true) (hw : clear found ws = true)
    (hby : ws.head? ≠ some "by") : clear found (vs ++ ws) = true := by
  induction vs with
  | nil => exact hw
  | cons v vs ih =>
    simp only [clear, Bool.and_eq_true, Bool.not_eq_eq_eq_not, Bool.not_true] at hv
    have hstart : startsClause found (v :: (vs ++ ws)) = startsClause found (v :: vs) := by
      cases vs with
      | nil => simp [startsClause, hby]
      | cons u us => rfl
    rw [List.cons_append, clear, hstart, hv.1, ih hv.2]
    rfl

theorem startsClause_head (h : startsClause found ws = true) : ws.head? ≠ some "by" := by
  cases ws with
  | nil => cases h
  | cons w ws =>
    rintro hw
    obtain rfl : w = "by" := by simpa using hw
    cases found
    all_goals simp [startsClause] at h

end

namespace Clauses
variable {c : Clauses} {us ws : List (Nat × String)}

theorem ofWords_of_sourceless (h : "from" ∉ us.map (·.2)) (hs : c.source = none) :
    ofWords c (us ++ ws) = ofWords c ws := by
  induction us with
  | nil => rfl
  | cons u us ih =>
    rw [List.map_cons, List.mem_cons, not_or] at h
    have hnote : ∀ next, c.note u.1 u.2 next = c := by
      intro next
      simp [note, hs, Ne.symm h.1]
    rw [List.cons_append, ofWords, hnote, ih h.2]

theorem exists_source {s : Nat} (h : (ofWords {} ws).source = some s) :
    ∃ us vs, ws = us ++ (s, "from") :: vs ∧ "from" ∉ us.map (·.2) := by
  induction ws with
  | nil => cases h
  | cons w ws ih =>
    obtain ⟨pos, word⟩ := w
    by_cases hw : word = "from"
    · subst hw
      rw [ofWords] at h
      have hnote : ∀ next, note {} pos "from" next = { source := some pos } := fun _ => rfl
      rw [hnote, ofWords_of_source rfl] at h
      obtain rfl := Option.some.inj h
      exact ⟨[], ws, rfl, by simp⟩
    · have hnote : ∀ next, note {} pos word next = {} := fun next => by simp [note, hw]
      rw [ofWords, hnote] at h
      obtain ⟨us, vs, rfl, hus⟩ := ih h
      refine ⟨(pos, word) :: us, vs, rfl, ?_⟩
      rw [List.map_cons, List.mem_cons, not_or]
      exact ⟨Ne.symm hw, hus⟩

theorem ofWords_of_clear (found : Bool) (hs : c.source.isSome)
    (hf : found = true → c.condition.isSome) (h : clear found (us.map (·.2)) = true)
    (hby : (ws.map (·.2)).head? ≠ some "by") :
    ofWords c (us ++ ws) = ofWords c ws := by
  induction us with
  | nil => rfl
  | cons u us ih =>
    simp only [List.map_cons, clear, Bool.and_eq_true, Bool.not_eq_eq_eq_not, Bool.not_true,
      startsClause, Bool.or_eq_false_iff] at h
    obtain ⟨⟨⟨hwhere, hhaving⟩, htail⟩, hus⟩ := h
    have hnext : ((u.2 = "group" || u.2 = "order") &&
        (us ++ ws).head?.map (·.2) == some "by") = false := by
      cases us with
      | nil =>
        rw [List.head?_map] at hby
        simp [hby]
      | cons v us => exact htail
    have hsource : c.source.isNone = false := by
      rw [Option.isNone_eq_false_iff]
      exact hs
    have hcondition : u.2 = "where" → c.condition.isNone = false := by
      intro hu
      rw [Option.isNone_eq_false_iff]
      exact hf (by simpa [hu] using hwhere)
    have hnote : c.note u.1 u.2 ((us ++ ws).head?.map (·.2)) = c := by
      rw [note, hnext]
      by_cases hu : u.2 = "where"
      · simp [hu, hsource, hcondition hu]
      · simp [hu, hsource, of_decide_eq_false hhaving]
    rw [List.cons_append, ofWords, hnote, ih hus]

theorem ofWords_of_startsClause (hs : c.source.isSome) (ht : c.tail = none)
    (h : startsClause true (ws.map (·.2)) = true) :
    ofWords c ws = { c with tail := ws.head?.map (·.1) } := by
  cases ws with
  | nil => cases h
  | cons w ws =>
    obtain ⟨pos, word⟩ := w
    have hsource : c.source.isNone = false := by
      rw [Option.isNone_eq_false_iff]
      exact hs
    have hnote : c.note pos word (ws.head?.map (·.2)) = { c with tail := some pos } := by
      simp only [List.map_cons, startsClause, Bool.not_true, Bool.false_and, Bool.false_or,
        Bool.or_eq_true, List.head?_map] at h
      rcases h with h | h
      · obtain rfl := of_decide_eq_true h
        simp [note, hsource, ht]
      · have hword : word = "group" ∨ word = "order" := by
          simpa using (Bool.and_eq_true_iff.1 h).1
        rw [note, h]
        rcases hword with rfl | rfl
        all_goals simp [hsource, ht]
    rw [ofWords, hnote]
    exact ofWords_of_tail hs rfl

theorem exists_clear (found : Bool) (ws : List (Nat × String)) : ∃ us vs, ws = us ++ vs ∧
    clear found (us.map (·.2)) = true ∧ (vs = [] ∨ startsClause found (vs.map (·.2)) = true) := by
  induction ws with
  | nil => exact ⟨[], [], rfl, rfl, .inl rfl⟩
  | cons w ws ih =>
    by_cases hw : startsClause found ((w :: ws).map (·.2)) = true
    · exact ⟨[], w :: ws, rfl, rfl, .inr hw⟩
    · obtain ⟨us, vs, rfl, hus, hvs⟩ := ih
      refine ⟨w :: us, vs, rfl, ?_, hvs⟩
      rw [List.map_cons, clear, hus, Bool.and_true, Bool.not_eq_true']
      -- What is cut off takes away at most the `by` of a clause.
      cases us with
      | nil =>
        rw [Bool.not_eq_true] at hw
        simp only [List.map_cons, startsClause, Bool.or_eq_false_iff] at hw
        simp [startsClause, hw.1]
      | cons u us => simpa [startsClause] using hw

end Clauses

/-- Between two pieces of a text, where the second is not empty, nothing is open, and what stands
behind may be a word. -/
def Seam (us cs : List Char) : Prop :=
  cs ≠ [] → standsAt 0 false us = (0, false) ∧ Detached us.getLast?

/-- A text cut up to the end of its sources, at `s`, and behind its condition. -/
structure Sections (s : Nat) (a b t : List Char) : Prop where
  source : ∃ us vs, topWords 0 0 false none a = us ++ (s, "from") :: vs ∧ "from" ∉ us.map (·.2) ∧
    clear false (vs.map (·.2)) = true
  source_end : Seam a (b ++ t)
  condition : b = [] ∨ b.head?.any inClauseWord = true ∧
    ∃ ws, shownWords b = "where" :: ws ∧ clear true ws = true
  condition_end : Seam b t
  tail : t = [] ∨ t.head?.any inClauseWord = true ∧ startsClause true (shownWords t) = true

section
variable {pos s : Nat} {us cs a b t q : List Char} {vs ws : List (Nat × String)}

theorem topWords_seam (h : Seam us cs) (pos : Nat) :
    topWords pos 0 false none (us ++ cs) =
      topWords pos 0 false none us ++ topWords (pos + us.length) 0 false none cs := by
  by_cases hcs : cs = []
  · rw [hcs, List.append_nil, topWords, List.append_nil]
  · obtain ⟨hstands, hdetached⟩ := h hcs
    rw [topWords_append pos 0 false none (by simp [hdetached.1]), hstands, Option.or_none,
      topWords_detached hdetached detached_none]

theorem shownWords_seam (h : Seam us cs) :
    shownWords (us ++ cs) = shownWords us ++ shownWords cs := by
  rw [shownWords, topWords_seam h, List.map_append, map_snd_topWords 0 none detached_none,
    map_snd_topWords _ none detached_none]

theorem topWords_first (h : cs.head?.any inClauseWord = true) (pos : Nat) :
    ∃ w vs, topWords pos 0 false none cs = (pos, w) :: vs ∧ shownWords cs = w :: vs.map (·.2) := by
  cases cs with
  | nil => cases h
  | cons c cs =>
    have hc : inClauseWord c = true := h
    have hshows := showsAt_first hc
    obtain ⟨w, vs, hw⟩ : ∃ w vs, topWords pos 0 false none (c :: cs) = (pos, w) :: vs := by
      rw [topWords_cons, if_pos hshows]
      exact ⟨_, _, rfl⟩
    refine ⟨w, vs, hw, ?_⟩
    rw [← map_snd_topWords pos none detached_none, hw]
    rfl

theorem exists_seam (h : topWords pos 0 false none cs = vs ++ ws) :
    ∃ us rest, cs = us ++ rest ∧ topWords pos 0 false none us = vs ∧
      topWords (pos + us.length) 0 false none rest = ws ∧ Seam us rest ∧
      (rest = [] ∨ rest.head?.any inClauseWord = true) ∧ (ws = [] → rest = []) := by
  cases ws with
  | nil => exact ⟨cs, [], by simp, by simpa using h, rfl, by simp [Seam], .inl rfl, fun _ => rfl⟩
  | cons w ws =>
    obtain ⟨us, rest, rfl, hpos, hus, hstands, hdetached, hfirst, hrest⟩ := topWords_split h
    rw [Option.or_none] at hdetached hrest
    rw [topWords_detached hdetached detached_none, hpos] at hrest
    exact ⟨us, rest, rfl, hus, hrest, fun _ => ⟨hstands, hdetached⟩, .inr hfirst, by simp⟩

open Clauses in
/-- Every text with sources is cut into its sections. -/
theorem exists_sections (h : (ofText q).source = some s) :
    ∃ a b t, q = a ++ (b ++ t) ∧ Sections s a b t := by
  obtain ⟨us, vs, hwords, hus⟩ := exists_source h
  obtain ⟨sources, behind, rfl, hsources, hbehind⟩ := exists_clear false vs
  rw [← List.cons_append, ← List.append_assoc] at hwords
  obtain ⟨a, r, rfl, ha, hr, hseam, hfirst, hnil⟩ := exists_seam hwords
  have hsource : ∃ us vs, topWords 0 0 false none a = us ++ (s, "from") :: vs ∧
      "from" ∉ us.map (·.2) ∧ clear false (vs.map (·.2)) = true := ⟨us, sources, ha, hus, hsources⟩
  have hshown : behind.map (·.2) = shownWords r := by rw [← hr, map_snd_topWords _ _ detached_none]
  rcases hfirst with rfl | hfirst
  · exact ⟨a, [], [], rfl, hsource, hseam, .inl rfl, by simp [Seam], .inl rfl⟩
  obtain ⟨w, ws, hr', hw⟩ := topWords_first hfirst (0 + a.length)
  have hstarts : startsClause false (shownWords r) = true := by
    rw [← hshown]
    refine hbehind.resolve_left fun hempty => ?_
    rw [hnil hempty] at hfirst
    cases hfirst
  -- The condition starts here, or there is none.
  by_cases hwhere : w = "where"
  · subst hwhere
    obtain ⟨inner, after, rfl, hinner, hafter⟩ := exists_clear true ws
    rw [← List.cons_append] at hr'
    obtain ⟨b, t, rfl, hb, ht, hseam', hfirst', hnil'⟩ := exists_seam hr'
    have hinside : shownWords b = "where" :: inner.map (·.2) := by
      rw [← map_snd_topWords _ _ detached_none, hb]
      rfl
    have hbehind' : after.map (·.2) = shownWords t := by
      rw [← ht, map_snd_topWords _ _ detached_none]
    refine ⟨a, b, t, rfl, hsource, hseam, .inr ⟨?_, inner.map (·.2), hinside, hinner⟩, hseam', ?_⟩
    · cases b with
      | nil => cases hinside
      | cons x b => exact hfirst
    · rcases hfirst' with rfl | hfirst'
      · exact .inl rfl
      · refine .inr ⟨hfirst', ?_⟩
        rw [← hbehind']
        refine hafter.resolve_left fun hempty => ?_
        rw [hnil' hempty] at hfirst'
        cases hfirst'
  · refine ⟨a, [], r, rfl, hsource, hseam, .inl rfl, ?_, .inr ⟨hfirst, ?_⟩⟩
    · exact fun _ => ⟨rfl, detached_none⟩
    · rw [hw] at hstarts ⊢
      simpa [startsClause, hwhere] using hstarts

theorem Sections.tail_head (h : Sections s a b t) : (shownWords t).head? ≠ some "by" := by
  rcases h.tail with rfl | ⟨-, hstarts⟩
  · simp [shownWords, topWords]
  · exact startsClause_head hstarts

theorem Sections.behind_head (h : Sections s a b t) : (shownWords (b ++ t)).head? ≠ some "by" := by
  rw [shownWords_seam h.condition_end]
  rcases h.condition with rfl | ⟨-, ws, hws, -⟩
  · exact h.tail_head
  · simp [hws]

open Clauses in
theorem Sections.ofWords_tail (h : Sections s a b t) {c : Clauses} (hs : c.source.isSome)
    (ht : c.tail = none) (pos : Nat) :
    ofWords c (topWords pos 0 false none t) =
      { c with tail := if t = [] then none else some pos } := by
  rcases h.tail with rfl | ⟨hfirst, hstarts⟩
  · rw [if_pos rfl, ← ht]
    rfl
  · obtain ⟨w, ws, hw, -⟩ := topWords_first hfirst pos
    rw [← map_snd_topWords pos none detached_none] at hstarts
    have hne : t ≠ [] := by
      rintro rfl
      cases hfirst
    rw [ofWords_of_startsClause hs ht hstarts, hw, if_neg hne]
    rfl

open Clauses in
theorem Sections.ofWords_behind (h : Sections s a b t) (pos : Nat) :
    ofWords { source := some s } (topWords pos 0 false none (b ++ t)) =
      { source := some s
        condition := if b = [] then none else some pos
        tail := if t = [] then none else some (pos + b.length) } := by
  rw [topWords_seam h.condition_end]
  rcases h.condition with rfl | ⟨hfirst, ws, hws, hclear⟩
  · exact h.ofWords_tail rfl rfl _
  · obtain ⟨w, inner, hw, hshown⟩ := topWords_first hfirst pos
    rw [hws] at hshown
    obtain ⟨rfl, rfl⟩ := List.cons.inj hshown
    have hne : b ≠ [] := by
      rintro rfl
      cases hfirst
    have hnote : ∀ next, note { source := some s } pos "where" next =
        { source := some s, condition := some pos } := fun _ => rfl
    have hby : ((topWords (pos + b.length) 0 false none t).map (·.2)).head? ≠ some "by" := by
      rw [map_snd_topWords _ _ detached_none]
      exact h.tail_head
    rw [hw, List.cons_append, ofWords, hnote,
      ofWords_of_clear true rfl (fun _ => rfl) hclear hby, h.ofWords_tail rfl rfl,
      if_neg hne]

open Clauses in
/-- The clause scan finds the sections of a text. -/
theorem Sections.ofText (h : Sections s a b t) :
    Clauses.ofText (a ++ (b ++ t)) =
      { source := some s
        condition := if b = [] then none else some a.length
        tail := if t = [] then none else some (a.length + b.length) } := by
  obtain ⟨us, vs, hwords, hus, hvs⟩ := h.source
  have hnote : ∀ next, note {} s "from" next = { source := some s } := fun _ => rfl
  have hby : ((topWords a.length 0 false none (b ++ t)).map (·.2)).head? ≠ some "by" := by
    rw [map_snd_topWords _ _ detached_none]
    exact h.behind_head
  rw [Clauses.ofText, topWords_seam h.source_end, hwords, List.append_assoc, Nat.zero_add,
    ofWords_of_sourceless hus rfl, List.cons_append, ofWords, hnote,
    ofWords_of_clear false rfl (by simp) hvs hby, h.ofWords_behind]

end

end EntityQuery.QueryText
