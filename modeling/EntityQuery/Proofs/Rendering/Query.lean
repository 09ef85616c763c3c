import EntityQuery.Proofs.Rendering.Condition
/-! Queries as text: the text of a query states the query, but for what text cannot tell apart. -/
namespace EntityQuery.QueryText
open Criteria Text Evaluation

section
variable {a b : String} {ts us : List Token}

/-- A text behind which nothing is and in front of which a token may end. -/
structure Clause (text : String) (ts : List Token) : Prop where
  lexes : Lexes Token.extends [] text.toList ts
  loose : Loose Token.extends text.toList

theorem Clause.empty : Clause "" [] := ⟨.nil, by simp [Loose]⟩

theorem Clause.of_space {text : List Char} (h : Lexes Token.extends [] text ts)
    (ha : a.toList = ' ' :: text) : Clause a ts := by
  refine ⟨ha ▸ h.space, ?_⟩
  rw [ha]
  exact separated_extends.loose (by simp) _

theorem Clause.after (h : Clause b us) (ha : Lexes Token.extends [] a.toList ts) :
    Lexes Token.extends [] (a ++ b).toList (ts ++ us) := by
  rw [String.toList_append]
  refine (ha.follow ?_).append h.lexes
  rw [List.append_nil]
  exact h.loose

theorem Clause.append (ha : Clause a ts) (hb : Clause b us) : Clause (a ++ b) (ts ++ us) := by
  refine ⟨hb.after ha.lexes, ?_⟩
  intro c hc t
  rw [String.toList_append, List.head?_append] at hc
  cases hh : a.toList.head? with
  | none => exact hb.loose c (by simpa [hh] using hc) t
  | some x => exact ha.loose c (by simpa [hh] using hc) t

end

section
variable {α : Type} (item : List Token → α → Prop) (text : α → String)

theorem lexes_joinWith (as : List α) (hne : as ≠ [])
    (h : ∀ a ∈ as, ∃ ts, Lexes Token.extends [] (text a).toList ts ∧ item ts a) :
    ∃ ts, Lexes Token.extends [] (joinWith ", " (as.map text)).toList ts ∧ Listed item ts as := by
  match as with
  | [a] =>
    obtain ⟨ts, hl, ha⟩ := h a (by simp)
    exact ⟨ts, hl, .one ha⟩
  | a :: b :: rest =>
    obtain ⟨ts, hl, ha⟩ := h a (by simp)
    obtain ⟨us, hm, hs⟩ := lexes_joinWith (b :: rest) (by simp) fun x hx => h x (.tail _ hx)
    refine ⟨ts ++ .symbol .comma :: us, ?_, .more ha hs⟩
    have hrest := hm.space.mark separated_extends (s := .comma) (c := ',') (by simp) rfl
    have hlex := (hl.follow (separated_extends.loose (by simp) _)).append hrest
    simpa [joinWith] using hlex

theorem clause_listText (as : List α) {word lead : String} (hw : word ∈ reserved)
    (hlead : lead.toList = ' ' :: (word.toList ++ " by ".toList))
    (h : ∀ a ∈ as, ∃ ts, Lexes Token.extends [] (text a).toList ts ∧ item ts a) :
    ∃ ts, Clause (Query.listText lead (as.map text)) ts ∧ ByClause word item ts as := by
  by_cases hne : as = []
  · subst hne
    exact ⟨[], .empty, .absent⟩
  · obtain ⟨ts, hl, hs⟩ := lexes_joinWith item text as hne h
    have hby := hl.cons separated_extends (lexeme_reserved (k := "by") (by decide))
    have hlex := hby.cons separated_extends (lexeme_reserved hw)
    have htext : (Query.listText lead (as.map text)).toList =
        ' ' :: (word.toList ++ ' ' :: ("by".toList ++ ' ' :: (joinWith ", " (as.map text)).toList)) := by
      simp [Query.listText, hne, hlead]
    exact ⟨_, .of_space hlex htext,
      .present (isKeyword_reserved hw) (isKeyword_reserved (by decide)) hs⟩

end

structure Printable (q : Query) : Prop where
  nonempty : q.roots ≠ []
  entities : ∀ r ∈ q.roots, isIdentifier r.entity = true
  aliases : ∀ r ∈ q.roots, Name r.aliasName
  nodup : (q.roots.map (·.aliasName)).Nodup
  declared : ∀ a ∈ referredAliases q, q.hasAlias a
  attributes : ∀ p, .path p ∈ q.expressions → ∀ a ∈ p.attr, ∀ c ∈ a.toList,
    inIdentifier c = true ∨ c = '.'
  literals : ∀ v, .literal v ∈ q.expressions → Literal v
  keys : ∀ e ∈ q.groupBy ++ q.orders.map (·.expression), ∃ p, e = .path p
  names : ∀ p ∈ q.parameters, ∀ n ∈ p.name, ∀ c ∈ n.toList, inIdentifier c = true

def shownNames (q : Query) : List (ParameterId × String) := parameterNames q.parameters

def shown (q : Query) : Selection :=
  match q.selection, q.roots with
  | some s, _ => s
  | none, r :: _ => .root r.aliasName
  | none, [] => .root ""

/-- The query that the text of a query states. -/
def writtenQuery (q : Query) : Query where
  result := resultOf (some (shown q))
  roots := q.roots
  selection := some (shown q)
  restriction := q.restriction.map (written (shownNames q))
  groupBy := q.groupBy
  orders := q.orders
  distinct := match shown q with
    | .root _ => q.distinct
    | .count _ _ => false

def conditionText (q : Query) : String :=
  match q.restriction with
  | some p => " where " ++ p.text (shownNames q) false
  | none => ""

def frontText (q : Query) : String :=
  "select " ++ q.selectionText ++ " from " ++
    joinWith ", " (q.roots.map fun r => r.entity ++ " " ++ r.aliasName)

def backText (q : Query) : String :=
  Query.listText " group by " (q.groupBy.map fun e => e.text (shownNames q)) ++
    Query.listText " order by " (q.orders.map fun o => o.text (shownNames q))

theorem text_eq (q : Query) : q.text = frontText q ++ (conditionText q ++ backText q) := by
  have htext : q.text = frontText q ++ conditionText q ++
      Query.listText " group by " (q.groupBy.map fun e => e.text (shownNames q)) ++
      Query.listText " order by " (q.orders.map fun o => o.text (shownNames q)) := rfl
  rw [htext, backText, String.append_assoc, String.append_assoc]

theorem isParameterName_nameOf {ps : List Parameter}
    (h : ∀ p ∈ ps, ∀ n ∈ p.name, ∀ c ∈ n.toList, inIdentifier c = true)
    (hne : ∀ p ∈ ps, p.name ≠ some "") (id : ParameterId) :
    isParameterName (nameOf (parameterNames ps) id) = true := by
  unfold nameOf
  split
  · rename_i name hfind
    have hmem := List.mem_of_find?_eq_some hfind
    obtain ⟨i, hi, he⟩ := List.mem_mapIdx.1 hmem
    obtain ⟨-, rfl⟩ := Prod.mk.inj he
    cases hname : ps[i].name with
    | some n =>
      have hchars := h ps[i] (List.getElem_mem hi) n hname
      have hn : n ≠ "" := fun he => hne ps[i] (List.getElem_mem hi) (by rw [hname, he])
      simpa [isParameterName, hn] using hchars
    | none =>
      have hdigits : ∀ c ∈ Nat.toDigits 10 i, inIdentifier c = true := by
        intro c hc
        simp [inIdentifier, Char.isAlphanum, Number.isDigit_of_mem_toDigits c hc]
      have hchars : (toString i).toList = Nat.toDigits 10 i := Nat.toList_repr
      simp only [Option.getD_none, isParameterName, String.toList_append, hchars, List.all_append,
        Bool.and_eq_true, List.all_eq_true]
      exact ⟨by simp, by simp [inIdentifier], hdigits⟩
  · decide +kernel

namespace Printable
variable {q : Query}

theorem name_of_hasAlias (h : Printable q) {a : String} (ha : q.hasAlias a) : Name a := by
  obtain ⟨r, hr, he⟩ := List.any_eq_true.1 ha
  obtain rfl := beq_iff_eq.1 he
  exact h.aliases r hr

theorem writable (h : Printable q) : ∀ e ∈ q.expressions, Writable e := by
  intro e he
  cases e with
  | path p =>
    have ha := h.declared p.aliasName (mem_referredAliases.2 (.inl ⟨p, he, rfl⟩))
    exact .path (h.name_of_hasAlias ha) (h.attributes p he)
  | literal v => exact .literal (h.literals v he)
  | parameter p => exact .parameter p

theorem shown_hasAlias (h : Printable q) {a : String}
    (ha : shown q = .root a ∨ ∃ distinct, shown q = .count a distinct) : q.hasAlias a := by
  unfold shown at ha
  split at ha
  · rename_i s hs
    refine h.declared a (mem_referredAliases.2 (.inr ?_))
    simpa [hs] using ha
  · rename_i r rest hs hr
    obtain rfl : r.aliasName = a := by simpa using ha
    simp [Query.hasAlias, hr]
  · rename_i hr
    exact (h.nonempty hr).elim

theorem lexes_name {a : String} (h : Name a) : Lexes Token.extends [] a.toList [.word a] := by
  have hlex := lexeme_identifier h.identifier [] (by simp)
  rw [List.append_nil, String.ofList_toList] at hlex
  exact .single hlex (by simp)

theorem select_root {a : String} (h : Name a) :
    ∃ ts, Lexes Token.extends [] ("select " ++ (q.distinctText ++ a)).toList ts ∧
      SelectClause ts q.distinct (some (.root a)) := by
  have hselect : Token.isKeyword "select" (.word "select") := isKeyword_reserved (by decide)
  have hselects := Selects.source h.free (hasDot_of_isIdentifier h.identifier)
  cases hd : q.distinct with
  | false =>
    refine ⟨_, ?_, .present hselect .absent hselects⟩
    have hlex := (lexes_name h).cons separated_extends
      (lexeme_reserved (k := "select") (by decide))
    simpa [Query.distinctText, hd] using hlex
  | true =>
    refine ⟨_, ?_, .present hselect (.present (isKeyword_reserved (by decide))) hselects⟩
    have hlex := ((lexes_name h).cons separated_extends
      (lexeme_reserved (k := "distinct") (by decide))).cons separated_extends
        (lexeme_reserved (k := "select") (by decide))
    simpa [Query.distinctText, hd] using hlex

theorem select_count {a : String} (h : Name a) (distinct : Bool) :
    ∃ ts, Lexes Token.extends [] ("select count(" ++ (if distinct then "distinct " else "") ++
      (a ++ ")")).toList ts ∧ SelectClause ts false (some (.count a distinct)) := by
  have hselect : Token.isKeyword "select" (.word "select") := isKeyword_reserved (by decide)
  have hcount : Token.isKeyword "count" (.word "count") := isKeyword_reserved (by decide)
  have hclose : Lexes Token.extends [] [')'] [.symbol .closing] :=
    Lexes.nil.mark separated_extends (by simp) rfl
  have hname := ((lexes_name h).follow (separated_extends.loose (by simp) [])).append hclose
  have hfront : ∀ {cs : List Char} {ts : List Token}, Lexes Token.extends [] cs ts →
      Lexes Token.extends [] ("select".toList ++ ' ' :: ("count".toList ++ '(' :: cs))
        (.word "select" :: .word "count" :: .symbol .opening :: ts) := by
    intro cs ts hcs
    have hopen := hcs.mark separated_extends (s := .opening) (c := '(') (by simp) rfl
    refine Lexes.cons separated_extends (lexeme_reserved (by decide)) ?_
    refine .token (lexeme_reserved (by decide)) (fun x hx => ?_) hopen
    cases hx
    exact separated_extends.apart '(' (by simp) _
  cases distinct with
  | false =>
    refine ⟨_, ?_, .present hselect .absent (.count hcount .absent h.free)⟩
    simpa using hfront hname
  | true =>
    refine ⟨_, ?_, .present hselect .absent
      (.count hcount (.present (isKeyword_reserved (by decide))) h.free)⟩
    simpa using hfront (hname.cons separated_extends (lexeme_reserved (k := "distinct") (by decide)))

theorem selectClause (h : Printable q) :
    ∃ ts, Lexes Token.extends [] ("select " ++ q.selectionText).toList ts ∧
      SelectClause ts (writtenQuery q).distinct (writtenQuery q).selection := by
  have hname : ∀ a, (shown q = .root a ∨ ∃ distinct, shown q = .count a distinct) → Name a :=
    fun a ha => h.name_of_hasAlias (h.shown_hasAlias ha)
  unfold writtenQuery
  dsimp only
  unfold shown at hname ⊢
  unfold Query.selectionText
  cases hs : q.selection with
  | none =>
    cases hr : q.roots with
    | nil => exact (h.nonempty hr).elim
    | cons r rest => exact select_root (h.aliases r (by simp [hr]))
  | some s =>
    rw [hs] at hname
    cases s with
    | root a => exact select_root (hname a (.inl rfl))
    | count a distinct =>
      have hcount := select_count (hname a (.inr ⟨distinct, rfl⟩)) distinct
      cases distinct with
      | false => simpa using hcount
      | true => simpa using hcount

theorem lexes_key (h : Printable q) {e : Expression}
    (he : e ∈ q.groupBy ++ q.orders.map (·.expression)) :
    ∃ ts, Lexes Token.extends [] (e.text (shownNames q)).toList ts ∧ PathName ts e := by
  obtain ⟨p, rfl⟩ := h.keys e he
  cases h.writable _ (mem_expressions.2 (.inr he)) with
  | path hname ha =>
    obtain ⟨hlex, hfree, hpath⟩ := hname.path ha
    have hpathname := PathName.intro hfree
    rw [hpath] at hpathname
    exact ⟨_, Lexes.single hlex (by simp), hpathname⟩

theorem lexes_order (h : Printable q) {o : Order} (ho : o ∈ q.orders) :
    ∃ ts, Lexes Token.extends [] (o.text (shownNames q)).toList ts ∧ Ordered ts o := by
  obtain ⟨ts, hl, hp⟩ := h.lexes_key
    (List.mem_append_right _ (List.mem_map_of_mem (f := (·.expression)) ho))
  obtain ⟨e, d⟩ := o
  have hword : ∀ {k : String}, k ∈ reserved → Lexes Token.extends []
      ((e.text (shownNames q)).toList ++ ' ' :: k.toList) (ts ++ [.word k]) := by
    intro k hk
    refine (hl.follow (separated_extends.loose (by simp) _)).append ?_
    exact (Lexes.single (lexeme_reserved hk) (by simp)).space
  cases d with
  | asc =>
    refine ⟨_, ?_, .asc hp (isKeyword_reserved (k := "asc") (by decide))⟩
    simpa [Order.text, Direction.text] using hword (k := "asc") (by decide)
  | desc =>
    refine ⟨_, ?_, .desc hp (isKeyword_reserved (k := "desc") (by decide))⟩
    simpa [Order.text, Direction.text] using hword (k := "desc") (by decide)

theorem lexes_source (h : Printable q) {r : Root} (hr : r ∈ q.roots) :
    ∃ ts, Lexes Token.extends [] (r.entity ++ " " ++ r.aliasName).toList ts ∧ Source ts r := by
  have hname := h.aliases r hr
  have hentity := lexeme_identifier (h.entities r hr) [] (by simp)
  rw [List.append_nil, String.ofList_toList] at hentity
  refine ⟨_, ?_, .intro .absent hname.free (hasDot_of_isIdentifier hname.identifier)
    (hasDot_of_isIdentifier (h.entities r hr))⟩
  simpa using (lexes_name hname).cons separated_extends hentity

theorem whereClause (h : Printable q) (hne : ∀ p ∈ q.parameters, p.name ≠ some "") :
    ∃ ts, Clause (conditionText q) ts ∧ WhereClause ts (writtenQuery q).restriction := by
  unfold writtenQuery conditionText
  dsimp only
  cases hp : q.restriction with
  | none => exact ⟨[], .empty, .absent⟩
  | some p =>
    obtain ⟨ts, hl, ds, hd, hds⟩ := writes_text (p := p) (isParameterName_nameOf h.names hne)
      (fun e he => h.writable e (mem_expressions.2 (.inl ⟨p, hp, he⟩))) false
    have hwhere := hl.cons separated_extends (lexeme_reserved (k := "where") (by decide))
    have hclause := WhereClause.present (isKeyword_reserved (k := "where") (by decide)) hd
    rw [hds] at hclause
    exact ⟨_, .of_space hwhere (by simp [shownNames]), hclause⟩

theorem front (h : Printable q) : ∃ select sources,
    Lexes Token.extends [] (frontText q).toList (select ++ .word "from" :: sources) ∧
      SelectClause select (writtenQuery q).distinct (writtenQuery q).selection ∧
      Listed Source sources q.roots := by
  obtain ⟨select, hselect, hs⟩ := h.selectClause
  obtain ⟨sources, hsources, hlisted⟩ := lexes_joinWith Source
    (fun r => r.entity ++ " " ++ r.aliasName) q.roots h.nonempty fun r hr => h.lexes_source hr
  have hfrom := hsources.cons separated_extends (lexeme_reserved (k := "from") (by decide))
  have hall := (hselect.follow (separated_extends.loose (by simp) _)).append hfrom.space
  exact ⟨select, sources, by simpa [frontText] using hall, hs, hlisted⟩

theorem back (h : Printable q) : ∃ groups orders, Clause (backText q) (groups ++ orders) ∧
    ByClause "group" PathName groups q.groupBy ∧ ByClause "order" Ordered orders q.orders := by
  have hwords : "group" ∈ reserved ∧ "order" ∈ reserved := by decide
  have hlead : " group by ".toList = ' ' :: ("group".toList ++ " by ".toList) ∧
      " order by ".toList = ' ' :: ("order".toList ++ " by ".toList) := by simp
  obtain ⟨groups, hgroups, hgroup⟩ := clause_listText PathName
    (fun e => e.text (shownNames q)) q.groupBy hwords.1 hlead.1
    fun e he => h.lexes_key (List.mem_append_left _ he)
  obtain ⟨orders, horders, horder⟩ := clause_listText Ordered
    (fun o => o.text (shownNames q)) q.orders hwords.2 hlead.2 fun o ho => h.lexes_order ho
  exact ⟨groups, orders, hgroups.append horders, hgroup, horder⟩

theorem states_restricted (h : Printable q) {text : String} {condition : List Token}
    {restriction : Option Predicate} (ht : Clause text condition)
    (hc : WhereClause condition restriction) :
    ∃ ts, Lexes Token.extends [] (frontText q ++ (text ++ backText q)).toList ts ∧
      States ts { writtenQuery q with restriction } := by
  obtain ⟨select, sources, hfront, hs, hlisted⟩ := h.front
  obtain ⟨groups, orders, hback, hgroup, horder⟩ := h.back
  refine ⟨_, (ht.append hback).after hfront, ?_⟩
  rw [List.append_assoc, List.cons_append]
  exact .intro ⟨hs, isKeyword_reserved (k := "from") (by decide), hlisted, h.nodup, hc, hgroup,
    horder, rfl⟩

/-- The text of a printable query states the written query. -/
theorem states (h : Printable q) (hne : ∀ p ∈ q.parameters, p.name ≠ some "") :
    ∃ ts, Lexes Token.extends [] q.text.toList ts ∧ States ts (writtenQuery q) := by
  obtain ⟨condition, hcondition, hwhere⟩ := h.whereClause hne
  rw [text_eq]
  exact h.states_restricted hcondition hwhere

end Printable

end EntityQuery.QueryText
