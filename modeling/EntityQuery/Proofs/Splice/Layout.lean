import EntityQuery.Proofs.Splice.Clauses
/-! Where the clauses of a statement lie in its text, and that the clause scan finds them there. -/
namespace EntityQuery.QueryText
open Criteria Text

/-- A text cut before its condition and before what follows the condition. -/
structure Cut (sticks : Token → Char → Bool) (a b c : List Char) (hs ws ts : List Token) : Prop where
  head : Lexes sticks (b ++ c) a hs
  condition : Lexes sticks c b ws
  tail : Lexes sticks [] c ts
  condition_starts : ∀ x ∈ b.head?, isBlank x = false
  tail_starts : ∀ x ∈ c.head?, isBlank x = false

section
variable {sticks other : Token → Char → Bool} {text rest a b c : List Char}
  {hs ws ts : List Token}

theorem Lexes.nil_of_starts (h : Lexes sticks rest a [])
    (hs : ∀ x ∈ a.head?, isBlank x = false) : a = [] := by
  cases a with
  | nil => rfl
  | cons x a =>
    have := lexes_nil_iff.1 h x List.mem_cons_self
    rw [hs x rfl] at this
    cases this

theorem Cut.condition_nil_iff (h : Cut sticks a b c hs ws ts) : b = [] ↔ ws = [] := by
  constructor
  · rintro rfl
    exact h.condition.eq_nil
  · rintro rfl
    exact h.condition.nil_of_starts h.condition_starts

theorem Cut.tail_nil_iff (h : Cut sticks a b c hs ws ts) : c = [] ↔ ts = [] := by
  constructor
  · rintro rfl
    exact h.tail.eq_nil
  · rintro rfl
    exact h.tail.nil_of_starts h.tail_starts

theorem Cut.mono (h : Cut sticks a b c hs ws ts)
    (ho : ∀ t x, other t x = true → sticks t x = true) : Cut other a b c hs ws ts :=
  ⟨h.head.mono ho, h.condition.mono ho, h.tail.mono ho, h.condition_starts, h.tail_starts⟩

theorem Cut.behind (h : Cut sticks a b c hs ws ts) : Lexes sticks [] (b ++ c) (ws ++ ts) :=
  .append (by simpa using h.condition) h.tail

theorem Cut.behind_starts (h : Cut sticks a b c hs ws ts) :
    ∀ x ∈ (b ++ c).head?, isBlank x = false := by
  cases b with
  | nil => exact h.tail_starts
  | cons x b => exact h.condition_starts

theorem Lexes.cut (h : Lexes sticks [] text (hs ++ (ws ++ ts))) :
    ∃ a b c, text = a ++ (b ++ c) ∧ Cut sticks a b c hs ws ts := by
  obtain ⟨a, d, rfl, ha, hd, hstarts⟩ := h.split
  obtain ⟨b, c, rfl, hb, hc, hcstarts⟩ := hd.split
  rw [List.append_nil] at ha hb
  refine ⟨a, b, c, rfl, ha, hb, hc, ?_, hcstarts⟩
  cases b with
  | nil => simp
  | cons x b => exact hstarts

end

/-- What the clause scan relies on in a query: its paths and its selection use no reserved words. -/
structure Regular (q : Query) : Prop where
  paths : ∀ x, .path x ∈ q.expressions → isReserved x.aliasName = false
  selected : ∀ a flag, q.selection = some (.count a flag) → hasDot a = false

/-- An entity that is not called as a clause that may follow the sources. -/
def Distinct (r : Root) : Prop := foldCase r.entity ≠ "where" ∧ foldCase r.entity ≠ "having"

section
variable {q : Query} {select sources condition groups orders : List Token} {k : Token}

theorem Token.Selecting.not_number {t : Token} (h : t.Selecting) (n : Number) : t ≠ .number n := by
  rintro rfl
  obtain ⟨k, hk, hs⟩ | ⟨a, ha, hr, hd⟩ | h | h := h
  · cases hs
  · cases ha
  · cases h
  · cases h

theorem WhereClause.shape {p : Option Predicate} (h : WhereClause condition p) :
    condition = [] ∧ p = none ∨ ∃ w ws ps, condition = w :: ws ∧ w.isKeyword "where" ∧
      Disjunction ws ps ∧ p = some (joined .or ps) := by
  cases h with
  | absent => exact .inl ⟨rfl, rfl⟩
  | present hk h => exact .inr ⟨_, _, _, rfl, hk, h, rfl⟩

theorem ByClause.shape {α : Type} {word : String} {item : List Token → α → Prop} {ts : List Token}
    {as : List α} (h : ByClause word item ts as) :
    ts = [] ∨ ∃ k b more, ts = k :: b :: more ∧ k.isKeyword word ∧ b.isKeyword "by" := by
  cases h with
  | absent => exact .inl rfl
  | present hk hb h => exact .inr ⟨_, _, _, rfl, hk, hb⟩

theorem Parts.tail_shape (h : Parts q select k sources condition groups orders) :
    groups ++ orders = [] ∨ ∃ g b more word, groups ++ orders = g :: b :: more ∧
      g.isKeyword word ∧ (word = "group" ∨ word = "order") ∧ b.isKeyword "by" := by
  obtain rfl | ⟨g, b, more, rfl, hk, hb⟩ := h.groups.shape
  · obtain rfl | ⟨g, b, more, rfl, hk, hb⟩ := h.orders.shape
    · exact .inl rfl
    · exact .inr ⟨g, b, more, _, rfl, hk, .inr rfl, hb⟩
  · exact .inr ⟨g, b, more ++ orders, _, rfl, hk, .inl rfl, hb⟩

open Clauses in
theorem Parts.ofWords_tail (h : Parts q select k sources condition groups orders) {c : List Char}
    (hl : Lexes Token.extends [] c (groups ++ orders)) (hstarts : ∀ x ∈ c.head?, isBlank x = false)
    {before : Option Char} (hclean : c ≠ [] → Clean before) {cl : Clauses} (hs : cl.source.isSome)
    (ht : cl.tail = none) (pos : Nat) :
    cl.ofWords (topWords pos 0 false before c) =
      { cl with tail := if c = [] then none else some pos } := by
  obtain hnil | ⟨g, b, more, word, hts, hg, hword, hb⟩ := h.tail_shape
  · rw [hnil] at hl
    obtain rfl := hl.nil_of_starts hstarts
    rw [topWords, ofWords, if_pos rfl, ← ht]
  · rw [hts] at hl
    have hne : c ≠ [] := by
      rintro rfl
      cases hl.eq_nil
    rw [if_neg hne, Clauses.ofWords_tail hl hstarts hg hword hb (hclean hne) hs ht]

theorem Parts.not_number (h : Parts q select k sources condition groups orders) (hq : Regular q)
    {us : List Token} (hus : us ⊆ sources) (n : Number) : .number n ∉ select ++ k :: us := by
  intro hn
  simp only [List.mem_append, List.mem_cons] at hn
  obtain hn | hn | hn := hn
  · exact (h.select.selecting hq.selected _ hn).not_number n rfl
  · rw [← hn] at h
    cases h.source
  · obtain ⟨s, hs⟩ | hs := h.sources.words _ (hus hn)
    all_goals cases hs

theorem Parts.select_quiet (h : Parts q select k sources condition groups orders) (hq : Regular q)
    (hc : ∀ s, .word s ∈ select → ∀ c ∈ s.toList, inWord c = true) :
    (∀ t ∈ select, t.Quiet) ∧ ∀ n, select.getLast? ≠ some (.number n) :=
  ⟨fun t ht => (h.select.selecting hq.selected t ht).quiet fun s hs => hc s (hs ▸ ht),
    fun n hn => (h.select.selecting hq.selected _ (List.mem_of_getLast? hn)).not_number n rfl⟩

open Clauses in
theorem Parts.ofText_sources (h : Parts q select k sources condition groups orders)
    (hq : Regular q) {us : List Token} {a rest : List Char}
    (ha : Lexes Token.extends rest a (select ++ k :: us)) (hus : us ⊆ sources)
    (hidle : Idle (us.filterMap Token.shown)) :
    ∃ pos, Clauses.ofText (a ++ rest) =
      ofWords { source := some pos } (topWords a.length 0 false a.getLast? rest) := by
  obtain ⟨hquiet, hnumber⟩ := h.select_quiet hq fun s hs =>
    ha.inWord_of_word (List.mem_append_left _ hs)
  exact Clauses.ofText_sources ha hquiet (h.select.depth 0) hnumber h.source
    (fun t ht => h.sources.words t (hus ht)) hidle

theorem Parts.clean (h : Parts q select k sources condition groups orders) (hq : Regular q)
    {us : List Token} {a rest : List Char} {x : Char} (hus : us ⊆ sources)
    (ha : Lexes Token.extends (x :: rest) a (select ++ k :: us)) (hx : startsWord x = true) :
    Clean a.getLast? := by
  obtain hclean | ⟨n, -, hn, -⟩ := ha.clean_or_number (fun _ _ h => h) hx
  · exact hclean
  · exact (h.not_number hq hus n (List.mem_of_getLast? hn)).elim

theorem Parts.condition_quiet (h : Parts q select k sources condition groups orders)
    (hq : Regular q) {w : Token} {ws : List Token} (hcond : condition = w :: ws)
    (hc : ∀ s, .word s ∈ ws → ∀ c ∈ s.toList, inWord c = true) :
    (∀ t ∈ ws, t.Quiet) ∧ ws.foldl Token.depth 0 = 0 := by
  obtain ⟨hnil, -⟩ | ⟨w', ws', ps, hcond', hw, hws, hp⟩ := h.condition.shape
  · rw [hcond] at hnil
    cases hnil
  · rw [hcond] at hcond'
    obtain ⟨rfl, rfl⟩ := List.cons.inj hcond'
    refine ⟨fun t ht => (hws.within t ht).quiet (fun s hs => hc s (hs ▸ ht)) ?_, hws.depth 0⟩
    intro x hx
    refine hq.paths x ?_
    rw [Query.expressions, hp]
    simp [hx]

open Clauses in
theorem Parts.ofText_condition (h : Parts q select k sources condition groups orders)
    (hq : Regular q) (he : ∀ r ∈ q.roots, Distinct r) {a b c : List Char}
    (hc : Cut Token.extends a b c (select ++ k :: sources) condition (groups ++ orders)) :
    ∃ pos, Clauses.ofText (a ++ (b ++ c)) =
      ofWords { source := some pos, condition := if b = [] then none else some a.length }
        (topWords (a.length + b.length) 0 false (b.getLast?.or a.getLast?) c) := by
  have hidle := h.sources.idle (fun s hs => hc.head.inWord_of_word (by simp [hs])) he
  obtain ⟨pos, hpos⟩ := h.ofText_sources hq hc.head (List.Subset.refl _) hidle
  refine ⟨pos, ?_⟩
  rw [hpos]
  obtain ⟨hcond, -⟩ | ⟨w, ws, ps, hcond, hw, -, -⟩ := h.condition.shape
  · obtain rfl := hc.condition_nil_iff.2 hcond
    rfl
  · have hne : b ≠ [] := fun hb => by
      rw [hc.condition_nil_iff.1 hb] at hcond
      cases hcond
    have hcondition := hc.condition
    rw [hcond] at hcondition
    have hbefore : Clean a.getLast? := by
      obtain ⟨ls, more, rfl, hl, -, -⟩ := hcondition.uncons hc.condition_starts
      obtain ⟨x, xs, rfl, hx, -⟩ := hl.of_isKeyword hw
      exact h.clean hq (List.Subset.refl _) hc.head hx
    obtain ⟨hquiet, hdepth⟩ := h.condition_quiet hq hcond fun s hs =>
      hcondition.inWord_of_word (.tail _ hs)
    rw [ofWords_condition hcondition hc.condition_starts hw hquiet hdepth hbefore rfl rfl rfl,
      if_neg hne]

open Clauses in
/-- The clause scan finds the clauses of a statement, unless the tail is glued to a number. -/
theorem Parts.ofText (h : Parts q select k sources condition groups orders) (hq : Regular q)
    (he : ∀ r ∈ q.roots, Distinct r) {a b c : List Char}
    (hc : Cut Token.extends a b c (select ++ k :: sources) condition (groups ++ orders))
    (hclean : c ≠ [] → Clean (b.getLast?.or a.getLast?)) :
    ∃ pos, Clauses.ofText (a ++ (b ++ c)) =
      { source := some pos
        condition := if b = [] then none else some a.length
        tail := if c = [] then none else some (a.length + b.length) } := by
  obtain ⟨pos, hpos⟩ := h.ofText_condition hq he hc
  refine ⟨pos, ?_⟩
  rw [hpos, h.ofWords_tail hc.tail hc.tail_starts hclean rfl rfl]

end

end EntityQuery.QueryText
