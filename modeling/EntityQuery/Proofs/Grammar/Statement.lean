import EntityQuery.Proofs.Grammar.Condition
/-! The grammar of statements as derivations over tokens. A list of tokens is read as a query when
it derives, and then as the query that the derivation denotes. -/
namespace EntityQuery.QueryText
open Criteria

inductive Optional (word : String) : List Token → Bool → Prop
  | absent : Optional word [] false
  | present {t : Token} (h : t.isKeyword word) : Optional word [t] true

inductive Listed {α : Type} (item : List Token → α → Prop) : List Token → List α → Prop
  | one {ts : List Token} {a : α} (h : item ts a) : Listed item ts [a]
  | more {ts us : List Token} {a : α} {as : List α} (h : item ts a) (hs : Listed item us as) :
    Listed item (ts ++ .symbol .comma :: us) (a :: as)

inductive Selects : List Token → Selection → Prop
  | source {a : String} (hr : isReserved a = false) (hd : hasDot a = false) :
    Selects [.word a] (.root a)
  | count {k : Token} {d : List Token} {flag : Bool} {a : String} (hk : k.isKeyword "count")
    (hd : Optional "distinct" d flag) (hr : isReserved a = false) :
    Selects (k :: .symbol .opening :: (d ++ [.word a, .symbol .closing])) (.count a flag)

inductive SelectClause : List Token → Bool → Option Selection → Prop
  | absent : SelectClause [] false none
  | present {k : Token} {d ts : List Token} {flag : Bool} {s : Selection}
    (hk : k.isKeyword "select") (hd : Optional "distinct" d flag) (hs : Selects ts s) :
    SelectClause (k :: (d ++ ts)) flag (some s)

inductive Source : List Token → Root → Prop
  | intro {entity a : String} {as : List Token} {flag : Bool} (has : Optional "as" as flag)
    (hr : isReserved a = false) (hd : hasDot a = false) (he : hasDot entity = false) :
    Source (.word entity :: (as ++ [.word a])) ⟨entity, a⟩

inductive WhereClause : List Token → Option Predicate → Prop
  | absent : WhereClause [] none
  | present {k : Token} {ts : List Token} {ps : List Predicate} (hk : k.isKeyword "where")
    (h : Disjunction ts ps) : WhereClause (k :: ts) (some (joined .or ps))

inductive PathName : List Token → Expression → Prop
  | intro {s : String} (hr : isReserved s = false) : PathName [.word s] (.path (pathOf s))

inductive Ordered : List Token → Order → Prop
  | plain {ts : List Token} {e : Expression} (h : PathName ts e) : Ordered ts ⟨e, .asc⟩
  | asc {ts : List Token} {e : Expression} {k : Token} (h : PathName ts e)
    (hk : k.isKeyword "asc") : Ordered (ts ++ [k]) ⟨e, .asc⟩
  | desc {ts : List Token} {e : Expression} {k : Token} (h : PathName ts e)
    (hk : k.isKeyword "desc") : Ordered (ts ++ [k]) ⟨e, .desc⟩

inductive ByClause {α : Type} (word : String) (item : List Token → α → Prop) :
    List Token → List α → Prop
  | absent : ByClause word item [] []
  | present {k b : Token} {ts : List Token} {as : List α} (hk : k.isKeyword word)
    (hb : b.isKeyword "by") (h : Listed item ts as) : ByClause word item (k :: b :: ts) as

/-- The clauses that state a query. -/
structure Parts (q : Query) (select : List Token) (k : Token)
    (sources condition groups orders : List Token) : Prop where
  select : SelectClause select q.distinct q.selection
  source : k.isKeyword "from"
  sources : Listed Source sources q.roots
  nodup : (q.roots.map (·.aliasName)).Nodup
  condition : WhereClause condition q.restriction
  groups : ByClause "group" PathName groups q.groupBy
  orders : ByClause "order" Ordered orders q.orders
  result : q.result = resultOf q.selection

inductive States : List Token → Query → Prop
  | intro {select sources condition groups orders : List Token} {k : Token} {q : Query}
    (h : Parts q select k sources condition groups orders) :
    States (select ++ k :: (sources ++ (condition ++ (groups ++ orders)))) q

section
variable {t : Token} {ts us rest : List Token} {word other : String} {flag : Bool}

theorem Optional.eq (h : Optional word ts flag) (hn : flag = false → keyword? word rest = none) :
    optional word (ts ++ rest) = (flag, rest) := by
  cases h with
  | absent => exact optional_of_none (hn rfl)
  | present h => exact optional_of_isKeyword h

theorem optional_spec (word : String) (ts : List Token) :
    ∃ us, Optional word us (optional word ts).1 ∧ ts = us ++ (optional word ts).2 := by
  rcases optional_cases word ts with ⟨t, us, ht, rfl, ho⟩ | ⟨-, ho⟩
  · exact ⟨[t], by rw [ho]; exact .present ht, by rw [ho]; rfl⟩
  · exact ⟨[], by rw [ho]; exact .absent, by rw [ho]; rfl⟩

theorem identifier_eq_ok {what : Expected} {r : Reading String ts} (h : identifier what ts = .ok r) :
    isReserved r.value = false ∧ ts = .word r.value :: r.rest := by
  unfold identifier at h
  split at h
  · split at h
    · cases h
    · cases h
      exact ⟨by simpa using ‹¬ isReserved _ = true›, rfl⟩
  · cases h

theorem identifier_reads {s : String} (h : isReserved s = false) (what : Expected)
    (rest : List Token) : (identifier what (.word s :: rest)).Reads s rest := by
  simp only [identifier, h, Bool.false_eq_true, if_false]
  exact .pure rfl

theorem hasDot_of_foldCase {s k : String} (h : Text.foldCase s = k)
    (hk : ∀ c ∈ k.toList, c.isAlpha = true) : hasDot s = false := by
  by_contra hn
  have hmem : '.' ∈ s.toList := by simpa [hasDot] using hn
  have := hk '.' (by
    rw [← h, Text.foldCase, String.toList_ofList]
    exact List.mem_map_of_mem (f := Char.toLower) hmem)
  cases this

theorem isReserved_of_hasDot {s : String} (h : hasDot s = true) : isReserved s = false := by
  by_contra hn
  have hmem : Text.foldCase s ∈ reserved := by simpa [isReserved, Text.isOneOf] using hn
  have halpha : ∀ k ∈ reserved, ∀ c ∈ k.toList, c.isAlpha = true := by
    simp [reserved]
  rw [hasDot_of_foldCase rfl (halpha _ hmem)] at h
  cases h

theorem keyword?_word_of_isReserved {s : String} (h : isReserved s = false)
    (hr : word ∈ reserved) : keyword? word (.word s :: rest) = none := by
  have hw : Token.isKeyword word (.word s) = false := by
    by_contra hn
    have := isReserved_of_isKeyword (by simpa using hn : Token.isKeyword word (.word s)) hr
    simp [h] at this
  simp [keyword?, hw]

end

section
variable {α : Type} {item : List Token → α → Prop} {rule : (ts : List Token) → Rule α ts}

theorem commaList_eq_ok
    (hitem : ∀ ts r, rule ts = .ok r → ∃ us, ts = us ++ r.rest ∧ item us r.value)
    {ts : List Token} {r : Reading (List α) ts} (h : commaList rule ts = .ok r) :
    ∃ us, ts = us ++ r.rest ∧ Listed item us r.value := by
  induction ts using commaList.induct (α := α) with
  | case1 ts ih =>
    rw [commaList] at h
    obtain ⟨first, hf, h⟩ := bind_eq_ok_iff.1 h
    obtain ⟨us, he, hus⟩ := hitem _ _ hf
    split at h
    · cases h
      exact ⟨us, he, .one hus⟩
    · rename_i comma hc
      obtain ⟨others, ho, h⟩ := bind_eq_ok_iff.1 h
      cases h
      obtain ⟨vs, hve, hvs⟩ := ih first comma ho
      exact ⟨us ++ .symbol .comma :: vs,
        by simp [← hve, ← symbolAt?_eq_some hc, ← he], .more hus hvs⟩

theorem Listed.tokens {P : Token → Prop} {ts : List Token} {as : List α} (h : Listed item ts as)
    (hitem : ∀ ts a, item ts a → ∀ t ∈ ts, P t) (hcomma : P (.symbol .comma)) : ∀ t ∈ ts, P t := by
  induction h with
  | one h => exact hitem _ _ h
  | more h hs ih =>
    intro t ht
    simp only [List.mem_append, List.mem_cons] at ht
    obtain ht | rfl | ht := ht
    · exact hitem _ _ h t ht
    · exact hcomma
    · exact ih t ht

theorem Listed.items {P : α → Prop} {ts : List Token} {as : List α} (h : Listed item ts as)
    (hitem : ∀ ts a, item ts a → P a) : ∀ a ∈ as, P a := by
  induction h with
  | one h => simpa using hitem _ _ h
  | more h hs ih => simpa using ⟨hitem _ _ h, ih⟩

theorem ByClause.items {P : α → Prop} {word : String} {ts : List Token} {as : List α}
    (h : ByClause word item ts as) (hitem : ∀ ts a, item ts a → P a) : ∀ a ∈ as, P a := by
  cases h with
  | absent => simp
  | present _ _ h => exact h.items hitem

/-- A list is read when each item is read before a comma and before what follows the list. -/
theorem Listed.reads (rule : (ts : List Token) → Rule α ts) (follows : List Token → Prop)
    (hitem : ∀ ts a rest, item ts a → follows rest → (rule (ts ++ rest)).Reads a rest)
    (hcomma : ∀ rest, follows (.symbol .comma :: rest)) {ts : List Token} {as : List α}
    (h : Listed item ts as) {rest : List Token} (hf : follows rest)
    (hc : symbolAt? .comma rest = none) : (commaList rule (ts ++ rest)).Reads as rest := by
  induction h with
  | one h =>
    rw [commaList]
    refine .bind (hitem _ _ _ h hf) fun _ => ?_
    simp only [hc]
    exact .pure rfl
  | more h hs ih =>
    rw [commaList, List.append_assoc]
    refine .bind (hitem _ _ _ h (hcomma _)) fun _ => ?_
    simp only [List.cons_append, symbolAt?, if_true]
    exact .bind ih fun _ => .pure rfl

end

section
variable {ts rest : List Token}

theorem path_eq_ok {r : Reading Expression ts} (h : path ts = .ok r) :
    ∃ us, ts = us ++ r.rest ∧ PathName us r.value := by
  obtain ⟨s, hs, h⟩ := map_eq_ok_iff.1 h
  obtain ⟨hr, he⟩ := identifier_eq_ok hs
  subst h
  exact ⟨[.word s.value], he, .intro hr⟩

theorem PathName.reads {e : Expression} (h : PathName ts e) (rest : List Token) :
    (path (ts ++ rest)).Reads e rest := by
  obtain ⟨hr⟩ := h
  exact (identifier_reads hr .path rest).map fun s => Expression.path (pathOf s)

theorem order_eq_ok {r : Reading Order ts} (h : order ts = .ok r) :
    ∃ us, ts = us ++ r.rest ∧ Ordered us r.value := by
  obtain ⟨e, he, h⟩ := bind_eq_ok_iff.1 h
  obtain ⟨us, hus, hp⟩ := path_eq_ok he
  rcases optional_cases "desc" e.rest with ⟨k, vs, hk, hke, ho⟩ | ⟨-, ho⟩
  · rw [if_pos (by rw [ho])] at h
    cases h
    refine ⟨us ++ [k], ?_, .desc hp hk⟩
    show ts = us ++ [k] ++ (optional "desc" e.rest).2
    rw [ho, List.append_assoc, List.singleton_append, ← hke]
    exact hus
  · rw [if_neg (by simp [ho])] at h
    cases h
    rcases optional_cases "asc" e.rest with ⟨k, vs, hk, hke, ho⟩ | ⟨-, ho⟩
    · refine ⟨us ++ [k], ?_, .asc hp hk⟩
      show ts = us ++ [k] ++ (optional "asc" e.rest).2
      rw [ho, List.append_assoc, List.singleton_append, ← hke]
      exact hus
    · refine ⟨us, ?_, .plain hp⟩
      show ts = us ++ (optional "asc" e.rest).2
      simp [ho, hus]

def Undirected (rest : List Token) : Prop :=
  keyword? "desc" rest = none ∧ keyword? "asc" rest = none

theorem Ordered.reads {o : Order} (h : Ordered ts o) (hu : Undirected rest) :
    (order (ts ++ rest)).Reads o rest := by
  obtain ⟨hd, ha⟩ := hu
  cases h with
  | plain h =>
    refine .bind (h.reads rest) fun _ => ?_
    simp only [optional_of_none hd, optional_of_none ha, Bool.false_eq_true, if_false]
    exact .pure rfl
  | @asc us e k h hk =>
    rw [List.append_assoc]
    refine .bind (h.reads _) fun _ => ?_
    simp only [List.singleton_append, optional_of_none (keyword?_of_other hk (by decide : "asc" ≠ "desc")),
      optional_of_isKeyword hk, Bool.false_eq_true, if_false]
    exact .pure rfl
  | @desc us e k h hk =>
    rw [List.append_assoc]
    refine .bind (h.reads _) fun _ => ?_
    simp only [List.singleton_append, optional_of_isKeyword hk, if_true]
    exact .pure rfl

theorem source_eq_ok {r : Reading Root ts} (h : source ts = .ok r) :
    ∃ us, ts = us ++ r.rest ∧ Source us r.value := by
  unfold source at h
  split at h
  · rename_i entity more
    obtain ⟨a, ha, h⟩ := bind_eq_ok_iff.1 h
    obtain ⟨hr, he⟩ := identifier_eq_ok ha
    split at h
    · cases h
    · rename_i hd
      cases h
      obtain ⟨as, has, hase⟩ := optional_spec "as" more
      simp only [Bool.or_eq_true, not_or, Bool.not_eq_true] at hd
      refine ⟨.word entity :: (as ++ [.word a.value]), ?_, .intro has hr hd.1 hd.2⟩
      show Token.word entity :: more = _ ++ a.rest
      rw [List.cons_append, List.append_assoc, List.singleton_append, ← he, ← hase]
  · cases h

theorem Source.reads {r : Root} (h : Source ts r) (rest : List Token) :
    (source (ts ++ rest)).Reads r rest := by
  obtain ⟨has, hr, hd, he⟩ := h
  rename_i entity a as flag
  have ho : optional "as" (as ++ (.word a :: rest)) = (flag, .word a :: rest) :=
    has.eq fun _ => keyword?_word_of_isReserved hr (by decide)
  have hl : Token.word entity :: (as ++ [.word a]) ++ rest =
      .word entity :: (as ++ (.word a :: rest)) := by simp
  rw [hl, source]
  refine .bind (by rw [ho]; exact identifier_reads hr .aliasName rest) fun _ => ?_
  simp only [hd, he, Bool.or_self, Bool.false_eq_true, if_false]
  exact .pure rfl

theorem selection_eq_ok {r : Reading Selection ts} (h : selection ts = .ok r) :
    ∃ us, ts = us ++ r.rest ∧ Selects us r.value := by
  have hplain : ∀ {r : Reading Selection ts}, (identifier .aliasName ts >>= fun a =>
      if hasDot a.value then Except.error Malformed.attributeSelected
      else pure (a.map Selection.root)) = .ok r → ∃ us, ts = us ++ r.rest ∧ Selects us r.value := by
    intro r h
    obtain ⟨a, ha, h⟩ := bind_eq_ok_iff.1 h
    obtain ⟨hr, he⟩ := identifier_eq_ok ha
    split at h
    · cases h
    · cases h
      exact ⟨[.word a.value], he, .source hr (by simpa using ‹¬ hasDot _ = true›)⟩
  unfold selection at h
  split at h
  · exact hplain h
  rename_i count hc
  split at h
  · exact hplain h
  rename_i open_ ho
  obtain ⟨a, ha, h⟩ := bind_eq_ok_iff.1 h
  obtain ⟨close, hcl, h⟩ := bind_eq_ok_iff.1 h
  cases h
  obtain ⟨k, hk, hke⟩ := keyword?_eq_some hc
  obtain ⟨hr, he⟩ := identifier_eq_ok ha
  obtain ⟨d, hd, hde⟩ := optional_spec "distinct" open_.rest
  refine ⟨k :: .symbol .opening :: (d ++ [.word a.value, .symbol .closing]), ?_, .count hk hd hr⟩
  show ts = _ ++ close.rest
  have hl : k :: Token.symbol .opening :: (d ++ [.word a.value, .symbol .closing]) ++ close.rest =
      k :: .symbol .opening :: (d ++ .word a.value :: (.symbol .closing :: close.rest)) := by simp
  rw [hl, ← closing_eq_ok hcl, ← he, ← hde, ← symbolAt?_eq_some ho]
  exact hke

theorem Selects.reads {s : Selection} (h : Selects ts s) (rest : List Token) :
    (selection (ts ++ rest)).Reads s rest := by
  cases h with
  | @source a hr hd =>
    have hp : Rule.Reads (identifier .aliasName (.word a :: rest) >>= fun a =>
        if hasDot a.value then Except.error Malformed.attributeSelected
        else pure (a.map Selection.root)) (.root a) rest := by
      refine .bind (identifier_reads hr .aliasName rest) fun _ => ?_
      simp only [hd, Bool.false_eq_true, if_false]
      exact .pure rfl
    have hc : keyword? "count" (.word a :: rest) = none :=
      keyword?_word_of_isReserved hr (by decide)
    simp only [List.singleton_append, selection, hc]
    exact hp
  | @count k d flag a hk hd hr =>
    have hl : k :: Token.symbol .opening :: (d ++ [.word a, .symbol .closing]) ++ rest =
        k :: .symbol .opening :: (d ++ .word a :: .symbol .closing :: rest) := by simp
    have hopt : optional "distinct" (d ++ .word a :: .symbol .closing :: rest) =
        (flag, .word a :: .symbol .closing :: rest) :=
      hd.eq fun _ => keyword?_word_of_isReserved hr (by decide)
    rw [hl]
    simp only [selection, keyword?_of_isKeyword hk, symbolAt?, if_true]
    refine .bind (by rw [hopt]; exact identifier_reads hr .aliasName _) fun _ => ?_
    exact .bind (.of_ok rfl) fun _ => .pure (by simp [hopt])

end

def Heads (words : List String) (ts : List Token) : Prop :=
  ts = [] ∨ ∃ t us w, w ∈ words ∧ t.isKeyword w ∧ ts = t :: us

namespace Heads
variable {words : List String} {ts : List Token}

theorem of_isKeyword {t : Token} {w : String} (h : t.isKeyword w) (hw : w ∈ words)
    (us : List Token) : Heads words (t :: us) := .inr ⟨t, us, w, hw, h, rfl⟩

theorem keyword?_eq_none {word : String} (h : Heads words ts) (hw : word ∉ words) :
    keyword? word ts = none := by
  obtain rfl | ⟨t, us, w, hmem, ht, rfl⟩ := h
  · rfl
  · exact keyword?_of_other ht fun he => hw (he ▸ hmem)

theorem symbolAt?_eq_none (h : Heads words ts) (s : Symbol) : symbolAt? s ts = none := by
  obtain rfl | ⟨t, us, w, -, ht, rfl⟩ := h
  · rfl
  · refine if_neg ?_
    rintro rfl
    cases ht

theorem undirected (h : Heads words ts) (hd : "desc" ∉ words) (ha : "asc" ∉ words) :
    Undirected ts := ⟨h.keyword?_eq_none hd, h.keyword?_eq_none ha⟩

end Heads

section
variable {α : Type} {word : String} {item : List Token → α → Prop} {words : List String}
  {ts rest : List Token}

theorem ByClause.heads {as : List α} (h : ByClause word item ts as) (hr : Heads words rest) :
    Heads (word :: words) (ts ++ rest) := by
  cases h with
  | absent =>
    obtain rfl | ⟨t, us, w, hmem, ht, rfl⟩ := hr
    · exact .inl rfl
    · exact .of_isKeyword ht (List.mem_cons_of_mem _ hmem) us
  | present hk => exact .of_isKeyword hk List.mem_cons_self _

theorem WhereClause.heads {p : Option Predicate} (h : WhereClause ts p) (hr : Heads words rest) :
    Heads ("where" :: words) (ts ++ rest) := by
  cases h with
  | absent =>
    obtain rfl | ⟨t, us, w, hmem, ht, rfl⟩ := hr
    · exact .inl rfl
    · exact .of_isKeyword ht (List.mem_cons_of_mem _ hmem) us
  | present hk => exact .of_isKeyword hk List.mem_cons_self _

end

section
variable {ts us rest : List Token}

theorem selectClause_eq_ok {distinct : Bool} {s : Option Selection}
    (h : selectClause ts = .ok (distinct, s, rest)) :
    ∃ us, ts = us ++ rest ∧ SelectClause us distinct s := by
  unfold selectClause at h
  split at h
  · cases h
    exact ⟨[], rfl, .absent⟩
  · rename_i r hr
    obtain ⟨k, hk, hke⟩ := keyword?_eq_some hr
    obtain ⟨d, hd, hde⟩ := optional_spec "distinct" r.rest
    generalize optional "distinct" r.rest = o at h hd hde
    obtain ⟨x, hx, h⟩ := bind_eq_ok_iff.1 h
    obtain ⟨vs, hv, hs⟩ := selection_eq_ok hx
    cases h
    exact ⟨k :: (d ++ vs), by rw [List.cons_append, List.append_assoc, ← hv, ← hde, ← hke],
      .present hk hd hs⟩

theorem Selects.keyword?_distinct {s : Selection} (h : Selects ts s) (rest : List Token) :
    keyword? "distinct" (ts ++ rest) = none := by
  cases h with
  | source hr hd => exact keyword?_word_of_isReserved hr (by decide)
  | count hk hd hr => exact keyword?_of_other hk (by decide)

theorem SelectClause.reads {distinct : Bool} {s : Option Selection}
    (h : SelectClause us distinct s) (hf : keyword? "select" rest = none) :
    selectClause (us ++ rest) = .ok (distinct, s, rest) := by
  cases h with
  | absent => simp only [List.nil_append, selectClause, hf]
  | @present k d vs flag s hk hd hs =>
    have ho := hd.eq fun _ => hs.keyword?_distinct rest
    obtain ⟨hlt, hsel⟩ := hs.reads rest
    simp only [List.cons_append, List.append_assoc, selectClause, keyword?_of_isKeyword hk]
    rw [ho]
    simp only [hsel, ok_bind, pure_eq_ok]

theorem whereClause_eq_ok {p : Option Predicate} (h : whereClause ts = .ok (p, rest)) :
    ∃ us, ts = us ++ rest ∧ WhereClause us p := by
  unfold whereClause at h
  split at h
  · cases h
    exact ⟨[], rfl, .absent⟩
  · rename_i r hr
    obtain ⟨k, hk, hke⟩ := keyword?_eq_some hr
    obtain ⟨x, hx, h⟩ := bind_eq_ok_iff.1 h
    obtain ⟨y, hy, rfl⟩ := map_eq_ok_iff.1 hx
    obtain ⟨vs, hv, hd⟩ := disjuncts_conjuncts_negation_eq_ok.1 _ _ hy
    cases h
    refine ⟨k :: vs, ?_, .present hk hd⟩
    show ts = k :: (vs ++ y.rest)
    rw [← hv, ← hke]

theorem WhereClause.reads {p : Option Predicate} (h : WhereClause us p)
    (hf : Heads ["group", "order"] rest) : whereClause (us ++ rest) = .ok (p, rest) := by
  cases h with
  | absent =>
    simp only [List.nil_append, whereClause, hf.keyword?_eq_none (by decide : "where" ∉ _)]
  | @present k vs ps hk h =>
    obtain ⟨hlt, hc⟩ := (h.reads (hf.keyword?_eq_none (by decide)) (hf.keyword?_eq_none (by decide))).map
      (joined .or)
    simp only [List.cons_append, whereClause, keyword?_of_isKeyword hk, condition, hc, ok_bind,
      pure_eq_ok]

theorem groupClause_eq_ok {es : List Expression} (h : groupClause ts = .ok (es, rest)) :
    ∃ us, ts = us ++ rest ∧ ByClause "group" PathName us es := by
  unfold groupClause at h
  split at h
  · cases h
    exact ⟨[], rfl, .absent⟩
  · rename_i r hr
    obtain ⟨k, hk, hke⟩ := keyword?_eq_some hr
    obtain ⟨x, hx, h⟩ := bind_eq_ok_iff.1 h
    obtain ⟨b, hb, hbe⟩ := keyword_eq_ok hx
    obtain ⟨y, hy, h⟩ := bind_eq_ok_iff.1 h
    obtain ⟨vs, hv, hl⟩ := commaList_eq_ok (fun _ _ => path_eq_ok) hy
    cases h
    exact ⟨k :: b :: vs, by rw [List.cons_append, List.cons_append, ← hv, ← hbe, ← hke],
      .present hk hb hl⟩

theorem groupClause_reads {es : List Expression} (h : ByClause "group" PathName us es)
    (hf : Heads ["order"] rest) : groupClause (us ++ rest) = .ok (es, rest) := by
  cases h with
  | absent =>
    simp only [List.nil_append, groupClause, hf.keyword?_eq_none (by decide : "group" ∉ _)]
  | @present k b vs es hk hb h =>
    obtain ⟨hlt, hc⟩ := h.reads path (fun _ => True)
      (fun _ _ rest h _ => h.reads rest) (fun _ => trivial) trivial
      (hf.symbolAt?_eq_none .comma)
    simp only [List.cons_append, groupClause, keyword?_of_isKeyword hk, keyword_of_isKeyword hb, hc,
      ok_bind, pure_eq_ok]

theorem orderClause_eq_ok {os : List Order} (h : orderClause ts = .ok (os, rest)) :
    ∃ us, ts = us ++ rest ∧ ByClause "order" Ordered us os := by
  unfold orderClause at h
  split at h
  · cases h
    exact ⟨[], rfl, .absent⟩
  · rename_i r hr
    obtain ⟨k, hk, hke⟩ := keyword?_eq_some hr
    obtain ⟨x, hx, h⟩ := bind_eq_ok_iff.1 h
    obtain ⟨b, hb, hbe⟩ := keyword_eq_ok hx
    obtain ⟨y, hy, h⟩ := bind_eq_ok_iff.1 h
    obtain ⟨vs, hv, hl⟩ := commaList_eq_ok (fun _ _ => order_eq_ok) hy
    cases h
    exact ⟨k :: b :: vs, by rw [List.cons_append, List.cons_append, ← hv, ← hbe, ← hke],
      .present hk hb hl⟩

theorem orderClause_reads {os : List Order} (h : ByClause "order" Ordered us os)
    (hf : Heads [] rest) : orderClause (us ++ rest) = .ok (os, rest) := by
  cases h with
  | absent => simp only [List.nil_append, orderClause, hf.keyword?_eq_none (by decide : "order" ∉ _)]
  | @present k b vs os hk hb h =>
    obtain ⟨hlt, hc⟩ := h.reads order Undirected
      (fun _ _ rest h hu => h.reads hu) (fun _ => ⟨rfl, rfl⟩)
      (hf.undirected (by decide) (by decide)) (hf.symbolAt?_eq_none .comma)
    simp only [List.cons_append, orderClause, keyword?_of_isKeyword hk, keyword_of_isKeyword hb, hc,
      ok_bind, pure_eq_ok]

end

theorem repeatedAlias?_eq_none_iff {seen : List String} {roots : List Root} :
    repeatedAlias? seen roots = none ↔
      (roots.map (·.aliasName)).Nodup ∧ ∀ r ∈ roots, r.aliasName ∉ seen := by
  induction roots generalizing seen with
  | nil => simp [repeatedAlias?]
  | cons r rest ih =>
    by_cases hr : r.aliasName ∈ seen
    · simp [repeatedAlias?, hr]
    · simp only [repeatedAlias?, List.contains_iff_mem, hr, if_false, ih, List.map_cons,
        List.nodup_cons, List.mem_cons, List.mem_map]
      constructor
      · rintro ⟨hn, hs⟩
        refine ⟨⟨?_, hn⟩, ?_⟩
        · rintro ⟨x, hx, he⟩
          exact hs x hx (.inl he)
        · rintro x (rfl | hx)
          · exact hr
          · exact fun hmem => hs x hx (.inr hmem)
      · rintro ⟨⟨hne, hn⟩, hs⟩
        refine ⟨hn, fun x hx => ?_⟩
        rintro (he | hmem)
        · exact hne ⟨x, hx, he⟩
        · exact hs x (.inr hx) hmem

/-- The rules read the clauses of a statement one after the other. -/
theorem Parts.reads {q : Query} {select sources condition groups orders : List Token} {k : Token}
    (h : Parts q select k sources condition groups orders) :
    selectClause (select ++ k :: (sources ++ (condition ++ (groups ++ orders)))) =
      .ok (q.distinct, q.selection, k :: (sources ++ (condition ++ (groups ++ orders)))) ∧
    (commaList QueryText.source (sources ++ (condition ++ (groups ++ orders)))).Reads q.roots
      (condition ++ (groups ++ orders)) ∧
    whereClause (condition ++ (groups ++ orders)) = .ok (q.restriction, groups ++ orders) ∧
    groupClause (groups ++ orders) = .ok (q.groupBy, orders) ∧
    orderClause orders = .ok (q.orders, []) := by
  have hend : Heads [] ([] : List Token) := .inl rfl
  have horders := h.orders.heads hend
  have hgroups := h.groups.heads horders
  have hcondition := h.condition.heads hgroups
  rw [List.append_nil] at horders hgroups hcondition
  have hlast := orderClause_reads h.orders hend
  rw [List.append_nil] at hlast
  refine ⟨h.select.reads (keyword?_of_other h.source (by decide)), ?_, h.condition.reads hgroups,
    groupClause_reads h.groups horders, hlast⟩
  exact h.sources.reads QueryText.source (fun _ => True) (fun _ _ rest h _ => h.reads rest)
    (fun _ => trivial) trivial (hcondition.symbolAt?_eq_none .comma)

theorem query_eq_ok_iff {ts : List Token} {q : Query} : query ts = .ok q ↔ States ts q := by
  constructor
  · intro h
    unfold query at h
    obtain ⟨⟨distinct, sel, ts₁⟩, hs, h⟩ := bind_eq_ok_iff.1 h
    obtain ⟨from_, hf, h⟩ := bind_eq_ok_iff.1 h
    obtain ⟨sources, hr, h⟩ := bind_eq_ok_iff.1 h
    dsimp only at h
    split at h
    · cases h
    rename_i hdup
    obtain ⟨⟨p, ts₂⟩, hw, h⟩ := bind_eq_ok_iff.1 h
    obtain ⟨⟨es, ts₃⟩, hg, h⟩ := bind_eq_ok_iff.1 h
    obtain ⟨⟨os, ts₄⟩, ho, h⟩ := bind_eq_ok_iff.1 h
    dsimp only at h
    split at h
    · cases h
    rename_i htrail
    cases h
    have hend : ts₄ = [] := by
      cases ts₄ with
      | nil => rfl
      | cons t us => exact (htrail t us rfl).elim
    obtain ⟨select, he, hs⟩ := selectClause_eq_ok hs
    obtain ⟨k, hk, hke⟩ := keyword_eq_ok hf
    obtain ⟨us, hu, hr⟩ := commaList_eq_ok (fun _ _ => source_eq_ok) hr
    obtain ⟨condition, hc, hw⟩ := whereClause_eq_ok hw
    obtain ⟨groups, hge, hg⟩ := groupClause_eq_ok hg
    obtain ⟨orders, hoe, ho⟩ := orderClause_eq_ok ho
    have hts : ts = select ++ k :: (us ++ (condition ++ (groups ++ orders))) := by
      have hc' : sources.rest = condition ++ (groups ++ (orders ++ ts₄)) := by
        rw [← hoe, ← hge, hc]
      rw [he, hke, hu, hc', hend, List.append_nil]
    have hn : (sources.value.map (·.aliasName)).Nodup := by
      have : repeatedAlias? [] sources.value = none := by
        cases hd : repeatedAlias? [] sources.value with
        | none => rfl
        | some a => exact (hdup a hd).elim
      exact (repeatedAlias?_eq_none_iff.1 this).1
    rw [hts]
    exact .intro ⟨hs, hk, hr, hn, hw, hg, ho, rfl⟩
  · rintro ⟨hparts⟩
    obtain ⟨hselect, ⟨hlt, hsources⟩, hwhere, hgroup, horder⟩ := hparts.reads
    have hdup : repeatedAlias? [] q.roots = none :=
      repeatedAlias?_eq_none_iff.2 ⟨hparts.nodup, fun _ _ => List.not_mem_nil⟩
    have hresult := hparts.result
    obtain ⟨result, roots, selection, restriction, groupBy, orders, distinct⟩ := q
    obtain rfl : result = resultOf selection := hresult
    simp only [query, hselect, keyword_of_isKeyword hparts.source, hsources, hdup, hwhere, hgroup,
      horder, ok_bind, pure_eq_ok]

end EntityQuery.QueryText
