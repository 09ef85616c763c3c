import EntityQuery.Proofs.Grammar.Statement
/-! Derivations of statements as trees. A tree says which rules derive its tokens, and what query it
denotes; the lists of tokens that state a query are those that have a derivation. -/
namespace EntityQuery.QueryText.Derivation
open Criteria

/-- A keyword, in letters of any case. -/
structure Keyword (word : String) where
  text : String
  folded : Text.foldCase text = word

structure Name where
  text : String
  free : isReserved text = false

section
variable {word : String}

def Keyword.token (k : Keyword word) : Token := .word k.text

def optionalTokens (k : Option (Keyword word)) : List Token := (k.map Keyword.token).toList

def Name.token (n : Name) : Token := .word n.text

def Name.path (n : Name) : Expression := .path (pathOf n.text)

end

inductive Operand where
  | number (n : Number)
  | quoted (text : String)
  | parameter (name : String)
  | true (k : Keyword "true")
  | false (k : Keyword "false")
  | null (k : Keyword "null")
  | name (n : Name)

namespace Operand

def token : Operand → Token
  | number n => .number n
  | quoted s => .quoted s
  | parameter s => .parameter s
  | true k => k.token
  | false k => k.token
  | null k => k.token
  | name n => n.token

def expression : Operand → Expression
  | number n => .literal (.number n)
  | quoted s => .literal (.string s)
  | parameter s => .parameter (parameterNamed s)
  | true _ => .literal (.bool .true)
  | false _ => .literal (.bool .false)
  | null _ => .literal .null
  | name n => n.path

end Operand

inductive Relation where
  | comparison (left : Operand) (op : Comparison) (right : Operand)
  | like (left : Operand) (negated : Option (Keyword "not")) (k : Keyword "like")
    (pattern : Operand)
  | null (left : Operand) (is : Keyword "is") (negated : Option (Keyword "not"))
    (k : Keyword "null")

namespace Relation

def tokens : Relation → List Token
  | comparison left op right => [left.token, .symbol (.comparison op), right.token]
  | like left negated k pattern =>
    left.token :: (optionalTokens negated ++ [k.token, pattern.token])
  | null left is negated k => left.token :: is.token :: (optionalTokens negated ++ [k.token])

def predicate : Relation → Predicate
  | comparison left op right => .comparison op left.expression right.expression
  | like left none _ pattern => .like left.expression pattern.expression
  | like left (some _) _ pattern => .not (.like left.expression pattern.expression)
  | null left _ none _ => .isNull left.expression
  | null left _ (some _) _ => .isNotNull left.expression

end Relation

mutual

inductive Disjunction where
  | one (c : Conjunction)
  | or (c : Conjunction) (k : Keyword "or") (rest : Disjunction)

/-- Conditions with `and` between them, which binds tighter than `or`. -/
inductive Conjunction where
  | one (n : Negation)
  | and (n : Negation) (k : Keyword "and") (rest : Conjunction)

/-- A condition behind `not`, which binds tightest, in parentheses, or a relation. -/
inductive Negation where
  | not (k : Keyword "not") (n : Negation)
  | group (d : Disjunction)
  | relation (r : Relation)

end

mutual

def Disjunction.tokens : Disjunction → List Token
  | .one c => c.tokens
  | .or c k rest => c.tokens ++ k.token :: rest.tokens

def Conjunction.tokens : Conjunction → List Token
  | .one n => n.tokens
  | .and n k rest => n.tokens ++ k.token :: rest.tokens

def Negation.tokens : Negation → List Token
  | .not k n => k.token :: n.tokens
  | .group d => .symbol .opening :: (d.tokens ++ [.symbol .closing])
  | .relation r => r.tokens

end

mutual

def Disjunction.predicates : Disjunction → List Predicate
  | .one c => [joined .and c.predicates]
  | .or c _ rest => joined .and c.predicates :: rest.predicates

def Conjunction.predicates : Conjunction → List Predicate
  | .one n => [n.predicate]
  | .and n _ rest => n.predicate :: rest.predicates

def Negation.predicate : Negation → Predicate
  | .not _ n => .not n.predicate
  | .group d => joined .or d.predicates
  | .relation r => r.predicate

end

/-- The condition that a derivation denotes: what stands between `or`s is one of its alternatives,
and all of what stands between `and`s has to hold. -/
def Disjunction.predicate (d : Disjunction) : Predicate := joined .or d.predicates

inductive CommaList (α : Type) where
  | one (a : α)
  | more (a : α) (rest : CommaList α)

namespace CommaList
variable {α : Type}

def tokens (f : α → List Token) : CommaList α → List Token
  | one a => f a
  | more a rest => f a ++ .symbol .comma :: rest.tokens f

def items : CommaList α → List α
  | one a => [a]
  | more a rest => a :: rest.items

end CommaList

inductive Selected where
  | source (n : Name) (plain : hasDot n.text = false)
  | count (k : Keyword "count") (distinct : Option (Keyword "distinct")) (n : Name)

namespace Selected

def tokens : Selected → List Token
  | source n _ => [n.token]
  | count k distinct n =>
    k.token :: .symbol .opening :: (optionalTokens distinct ++ [n.token, .symbol .closing])

def selection : Selected → Selection
  | source n _ => .root n.text
  | count _ distinct n => .count n.text distinct.isSome

end Selected

structure SelectClause where
  select : Keyword "select"
  distinct : Option (Keyword "distinct")
  selected : Selected

def SelectClause.tokens (s : SelectClause) : List Token :=
  s.select.token :: (optionalTokens s.distinct ++ s.selected.tokens)

structure Source where
  entity : String
  plainEntity : hasDot entity = false
  as : Option (Keyword "as")
  name : Name
  plain : hasDot name.text = false

namespace Source

def tokens (s : Source) : List Token :=
  .word s.entity :: (optionalTokens s.as ++ [s.name.token])

def root (s : Source) : Root := ⟨s.entity, s.name.text⟩

end Source

structure WhereClause where
  where_ : Keyword "where"
  condition : Disjunction

def WhereClause.tokens (w : WhereClause) : List Token := w.where_.token :: w.condition.tokens

structure ByClause (word : String) (α : Type) where
  start : Keyword word
  by_ : Keyword "by"
  list : CommaList α

def ByClause.tokens {word : String} {α : Type} (f : α → List Token) (c : ByClause word α) :
    List Token := c.start.token :: c.by_.token :: c.list.tokens f

inductive Ordered where
  | plain (n : Name)
  | asc (n : Name) (k : Keyword "asc")
  | desc (n : Name) (k : Keyword "desc")

namespace Ordered

def tokens : Ordered → List Token
  | plain n => [n.token]
  | asc n k => [n.token, k.token]
  | desc n k => [n.token, k.token]

def order : Ordered → Order
  | plain n | asc n _ => ⟨n.path, .asc⟩
  | desc n _ => ⟨n.path, .desc⟩

end Ordered

/-- A derivation of a whole statement. -/
structure Statement where
  select : Option SelectClause
  from_ : Keyword "from"
  sources : CommaList Source
  nodup : (sources.items.map (·.name.text)).Nodup
  where_ : Option WhereClause
  groups : Option (ByClause "group" Name)
  orders : Option (ByClause "order" Ordered)

namespace Statement

def clauseTokens {γ : Type} (f : γ → List Token) (c : Option γ) : List Token :=
  c.elim [] f

def tokens (d : Statement) : List Token :=
  clauseTokens SelectClause.tokens d.select ++ d.from_.token :: (d.sources.tokens Source.tokens ++
    (clauseTokens WhereClause.tokens d.where_ ++
      (clauseTokens (ByClause.tokens fun n : Name => [n.token]) d.groups ++
        clauseTokens (ByClause.tokens Ordered.tokens) d.orders)))

def query (d : Statement) : Query where
  result := resultOf (d.select.map (·.selected.selection))
  roots := d.sources.items.map (·.root)
  selection := d.select.map (·.selected.selection)
  restriction := d.where_.map (·.condition.predicate)
  groupBy := d.groups.elim [] fun c => c.list.items.map (·.path)
  orders := d.orders.elim [] fun c => c.list.items.map (·.order)
  distinct := d.select.any (·.distinct.isSome)

end Statement

/-! ### What has a derivation is derivable -/

section
variable {word : String} {t : Token} {ts : List Token}

theorem Keyword.isKeyword (k : Keyword word) : k.token.isKeyword word := by
  simp [token, Token.isKeyword, k.folded]

theorem exists_keyword (h : t.isKeyword word) : ∃ k : Keyword word, k.token = t := by
  obtain ⟨s, rfl, hfold⟩ := Token.isKeyword_iff.1 h
  exact ⟨⟨s, hfold⟩, rfl⟩

theorem optional_optionalTokens (k : Option (Keyword word)) :
    Optional word (optionalTokens k) k.isSome := by
  cases k with
  | none => exact .absent
  | some k => exact .present k.isKeyword

theorem exists_optionalTokens {flag : Bool} (h : Optional word ts flag) :
    ∃ k : Option (Keyword word), optionalTokens k = ts ∧ k.isSome = flag := by
  cases h with
  | absent => exact ⟨none, rfl, rfl⟩
  | present h =>
    obtain ⟨k, rfl⟩ := exists_keyword h
    exact ⟨some k, rfl, rfl⟩

theorem Operand.derives (o : Operand) : QueryText.Operand o.token o.expression := by
  cases o with
  | number n => exact .number n
  | quoted s => exact .quoted s
  | parameter s => exact .parameter s
  | true k => exact .trueWord k.folded
  | false k => exact .falseWord k.folded
  | null k => exact .nullWord k.folded
  | name n => exact .name n.free

theorem exists_operand {e : Expression} (h : QueryText.Operand t e) :
    ∃ o : Operand, o.token = t ∧ o.expression = e := by
  cases h with
  | number n => exact ⟨.number n, rfl, rfl⟩
  | quoted s => exact ⟨.quoted s, rfl, rfl⟩
  | parameter s => exact ⟨.parameter s, rfl, rfl⟩
  | trueWord h => exact ⟨.true ⟨_, h⟩, rfl, rfl⟩
  | falseWord h => exact ⟨.false ⟨_, h⟩, rfl, rfl⟩
  | nullWord h => exact ⟨.null ⟨_, h⟩, rfl, rfl⟩
  | name h => exact ⟨.name ⟨_, h⟩, rfl, rfl⟩

theorem Relation.derives (r : Relation) : QueryText.Relation r.tokens r.predicate := by
  cases r with
  | comparison left op right => exact .comparison left.derives op right.derives
  | like left negated k pattern =>
    cases negated with
    | none => exact .like left.derives k.isKeyword pattern.derives
    | some n => exact .notLike left.derives n.isKeyword k.isKeyword pattern.derives
  | null left is negated k =>
    cases negated with
    | none => exact .isNull left.derives is.isKeyword k.isKeyword
    | some n => exact .isNotNull left.derives is.isKeyword n.isKeyword k.isKeyword

theorem exists_relation {p : Predicate} (h : QueryText.Relation ts p) :
    ∃ r : Relation, r.tokens = ts ∧ r.predicate = p := by
  cases h with
  | comparison hl op hr =>
    obtain ⟨l, rfl, rfl⟩ := exists_operand hl
    obtain ⟨r, rfl, rfl⟩ := exists_operand hr
    exact ⟨.comparison l op r, rfl, rfl⟩
  | like hl hk hr =>
    obtain ⟨l, rfl, rfl⟩ := exists_operand hl
    obtain ⟨k, rfl⟩ := exists_keyword hk
    obtain ⟨r, rfl, rfl⟩ := exists_operand hr
    exact ⟨.like l none k r, rfl, rfl⟩
  | notLike hl hn hk hr =>
    obtain ⟨l, rfl, rfl⟩ := exists_operand hl
    obtain ⟨n, rfl⟩ := exists_keyword hn
    obtain ⟨k, rfl⟩ := exists_keyword hk
    obtain ⟨r, rfl, rfl⟩ := exists_operand hr
    exact ⟨.like l (some n) k r, rfl, rfl⟩
  | isNull hl hi hk =>
    obtain ⟨l, rfl, rfl⟩ := exists_operand hl
    obtain ⟨i, rfl⟩ := exists_keyword hi
    obtain ⟨k, rfl⟩ := exists_keyword hk
    exact ⟨.null l i none k, rfl, rfl⟩
  | isNotNull hl hi hn hk =>
    obtain ⟨l, rfl, rfl⟩ := exists_operand hl
    obtain ⟨i, rfl⟩ := exists_keyword hi
    obtain ⟨n, rfl⟩ := exists_keyword hn
    obtain ⟨k, rfl⟩ := exists_keyword hk
    exact ⟨.null l i (some n) k, rfl, rfl⟩

mutual

theorem Disjunction.derives (d : Disjunction) :
    QueryText.Disjunction d.tokens d.predicates := by
  match d with
  | .one c =>
    rw [Disjunction.tokens, Disjunction.predicates]
    exact .one c.derives
  | .or c k rest =>
    rw [Disjunction.tokens, Disjunction.predicates]
    exact .more c.derives k.isKeyword rest.derives

theorem Conjunction.derives (c : Conjunction) :
    QueryText.Conjunction c.tokens c.predicates := by
  match c with
  | .one n =>
    rw [Conjunction.tokens, Conjunction.predicates]
    exact .one n.derives
  | .and n k rest =>
    rw [Conjunction.tokens, Conjunction.predicates]
    exact .more n.derives k.isKeyword rest.derives

theorem Negation.derives (n : Negation) : QueryText.Negation n.tokens n.predicate := by
  match n with
  | .not k n =>
    rw [Negation.tokens, Negation.predicate]
    exact .not k.isKeyword n.derives
  | .group d =>
    rw [Negation.tokens, Negation.predicate]
    exact .group d.derives
  | .relation r =>
    rw [Negation.tokens, Negation.predicate]
    exact .relation r.derives

end

mutual

theorem exists_disjunction {ts : List Token} {ps : List Predicate}
    (h : QueryText.Disjunction ts ps) : ∃ d : Disjunction, d.tokens = ts ∧ d.predicates = ps := by
  match h with
  | .one h =>
    obtain ⟨c, rfl, rfl⟩ := exists_conjunction h
    exact ⟨.one c, by rw [Disjunction.tokens], by rw [Disjunction.predicates]⟩
  | .more h hk hs =>
    obtain ⟨c, rfl, rfl⟩ := exists_conjunction h
    obtain ⟨k, rfl⟩ := exists_keyword hk
    obtain ⟨d, rfl, rfl⟩ := exists_disjunction hs
    exact ⟨.or c k d, by rw [Disjunction.tokens], by rw [Disjunction.predicates]⟩

theorem exists_conjunction {ts : List Token} {ps : List Predicate}
    (h : QueryText.Conjunction ts ps) : ∃ c : Conjunction, c.tokens = ts ∧ c.predicates = ps := by
  match h with
  | .one h =>
    obtain ⟨n, rfl, rfl⟩ := exists_negation h
    exact ⟨.one n, by rw [Conjunction.tokens], by rw [Conjunction.predicates]⟩
  | .more h hk hs =>
    obtain ⟨n, rfl, rfl⟩ := exists_negation h
    obtain ⟨k, rfl⟩ := exists_keyword hk
    obtain ⟨c, rfl, rfl⟩ := exists_conjunction hs
    exact ⟨.and n k c, by rw [Conjunction.tokens], by rw [Conjunction.predicates]⟩

theorem exists_negation {ts : List Token} {p : Predicate} (h : QueryText.Negation ts p) :
    ∃ n : Negation, n.tokens = ts ∧ n.predicate = p := by
  match h with
  | .not hk h =>
    obtain ⟨k, rfl⟩ := exists_keyword hk
    obtain ⟨n, rfl, rfl⟩ := exists_negation h
    exact ⟨.not k n, by rw [Negation.tokens], by rw [Negation.predicate]⟩
  | .group h =>
    obtain ⟨d, rfl, rfl⟩ := exists_disjunction h
    exact ⟨.group d, by rw [Negation.tokens], by rw [Negation.predicate]⟩
  | .relation h =>
    obtain ⟨r, rfl, rfl⟩ := exists_relation h
    exact ⟨.relation r, by rw [Negation.tokens], by rw [Negation.predicate]⟩

end

end

section
variable {α β : Type} {item : List Token → α → Prop} {f : β → List Token} {g : β → α}
  {word : String} {ts : List Token} {as : List α}

theorem CommaList.derives (h : ∀ b, item (f b) (g b)) (l : CommaList β) :
    Listed item (l.tokens f) (l.items.map g) := by
  induction l with
  | one b => exact .one (h b)
  | more b rest ih => exact .more (h b) ih

theorem exists_commaList (hitem : ∀ ts a, item ts a → ∃ b, f b = ts ∧ g b = a)
    (h : Listed item ts as) : ∃ l : CommaList β, l.tokens f = ts ∧ l.items.map g = as := by
  induction h with
  | one h =>
    obtain ⟨b, rfl, rfl⟩ := hitem _ _ h
    exact ⟨.one b, rfl, rfl⟩
  | more h hs ih =>
    obtain ⟨b, rfl, rfl⟩ := hitem _ _ h
    obtain ⟨l, rfl, rfl⟩ := ih
    exact ⟨.more b l, rfl, rfl⟩

theorem ByClause.derives (h : ∀ b, item (f b) (g b)) (c : Option (ByClause word β)) :
    QueryText.ByClause word item (Statement.clauseTokens (tokens f) c)
      (c.elim [] fun c => c.list.items.map g) := by
  cases c with
  | none => exact .absent
  | some c => exact .present c.start.isKeyword c.by_.isKeyword (c.list.derives h)

theorem exists_byClause (hitem : ∀ ts a, item ts a → ∃ b, f b = ts ∧ g b = a)
    (h : QueryText.ByClause word item ts as) :
    ∃ c : Option (ByClause word β), Statement.clauseTokens (ByClause.tokens f) c = ts ∧
      (c.elim [] fun c => c.list.items.map g) = as := by
  cases h with
  | absent => exact ⟨none, rfl, rfl⟩
  | present hk hb h =>
    obtain ⟨k, rfl⟩ := exists_keyword hk
    obtain ⟨b, rfl⟩ := exists_keyword hb
    obtain ⟨l, rfl, rfl⟩ := exists_commaList hitem h
    exact ⟨some ⟨k, b, l⟩, rfl, rfl⟩

end

section
variable {ts : List Token}

theorem Selected.derives (s : Selected) : Selects s.tokens s.selection := by
  cases s with
  | source n plain => exact .source n.free plain
  | count k distinct n => exact .count k.isKeyword (optional_optionalTokens distinct) n.free

theorem exists_selected {s : Selection} (h : Selects ts s) :
    ∃ d : Selected, d.tokens = ts ∧ d.selection = s := by
  cases h with
  | source hr hd => exact ⟨.source ⟨_, hr⟩ hd, rfl, rfl⟩
  | count hk hd hr =>
    obtain ⟨k, rfl⟩ := exists_keyword hk
    obtain ⟨d, rfl, rfl⟩ := exists_optionalTokens hd
    exact ⟨.count k d ⟨_, hr⟩, rfl, rfl⟩

theorem SelectClause.derives (s : Option SelectClause) :
    QueryText.SelectClause (Statement.clauseTokens tokens s) (s.any (·.distinct.isSome))
      (s.map (·.selected.selection)) := by
  cases s with
  | none => exact .absent
  | some s =>
    exact .present s.select.isKeyword (optional_optionalTokens s.distinct) s.selected.derives

theorem exists_selectClause {distinct : Bool} {s : Option Selection}
    (h : QueryText.SelectClause ts distinct s) :
    ∃ d : Option SelectClause, Statement.clauseTokens SelectClause.tokens d = ts ∧
      d.any (·.distinct.isSome) = distinct ∧ d.map (·.selected.selection) = s := by
  cases h with
  | absent => exact ⟨none, rfl, rfl, rfl⟩
  | present hk hd hs =>
    obtain ⟨k, rfl⟩ := exists_keyword hk
    obtain ⟨d, rfl, rfl⟩ := exists_optionalTokens hd
    obtain ⟨s, rfl, rfl⟩ := exists_selected hs
    exact ⟨some ⟨k, d, s⟩, rfl, rfl, rfl⟩

theorem Source.derives (s : Source) : QueryText.Source s.tokens s.root :=
  .intro (optional_optionalTokens s.as) s.name.free s.plain s.plainEntity

theorem exists_source (r : Root) (h : QueryText.Source ts r) :
    ∃ s : Source, s.tokens = ts ∧ s.root = r := by
  obtain ⟨has, hr, hd, he⟩ := h
  obtain ⟨k, rfl, -⟩ := exists_optionalTokens has
  exact ⟨⟨_, he, k, ⟨_, hr⟩, hd⟩, rfl, rfl⟩

theorem WhereClause.derives (w : Option WhereClause) :
    QueryText.WhereClause (Statement.clauseTokens tokens w) (w.map (·.condition.predicate)) := by
  cases w with
  | none => exact .absent
  | some w => exact .present w.where_.isKeyword w.condition.derives

theorem exists_whereClause {p : Option Predicate} (h : QueryText.WhereClause ts p) :
    ∃ w : Option WhereClause, Statement.clauseTokens WhereClause.tokens w = ts ∧
      w.map (·.condition.predicate) = p := by
  cases h with
  | absent => exact ⟨none, rfl, rfl⟩
  | present hk h =>
    obtain ⟨k, rfl⟩ := exists_keyword hk
    obtain ⟨d, rfl, rfl⟩ := exists_disjunction h
    exact ⟨some ⟨k, d⟩, rfl, rfl⟩

theorem Name.derives (n : Name) : PathName [n.token] n.path := .intro n.free

theorem exists_name (e : Expression) (h : PathName ts e) :
    ∃ n : Name, [n.token] = ts ∧ n.path = e := by
  obtain ⟨hr⟩ := h
  exact ⟨⟨_, hr⟩, rfl, rfl⟩

theorem Ordered.derives (o : Ordered) : QueryText.Ordered o.tokens o.order := by
  cases o with
  | plain n => exact .plain n.derives
  | asc n k => exact .asc n.derives k.isKeyword
  | desc n k => exact .desc n.derives k.isKeyword

theorem exists_ordered (o : Order) (h : QueryText.Ordered ts o) :
    ∃ d : Ordered, d.tokens = ts ∧ d.order = o := by
  cases h with
  | plain h =>
    obtain ⟨n, rfl, rfl⟩ := exists_name _ h
    exact ⟨.plain n, rfl, rfl⟩
  | asc h hk =>
    obtain ⟨n, rfl, rfl⟩ := exists_name _ h
    obtain ⟨k, rfl⟩ := exists_keyword hk
    exact ⟨.asc n k, rfl, rfl⟩
  | desc h hk =>
    obtain ⟨n, rfl, rfl⟩ := exists_name _ h
    obtain ⟨k, rfl⟩ := exists_keyword hk
    exact ⟨.desc n k, rfl, rfl⟩

theorem Statement.parts (d : Statement) : Parts d.query
    (clauseTokens SelectClause.tokens d.select) d.from_.token (d.sources.tokens Source.tokens)
    (clauseTokens WhereClause.tokens d.where_)
    (clauseTokens (ByClause.tokens fun n : Name => [n.token]) d.groups)
    (clauseTokens (ByClause.tokens Ordered.tokens) d.orders) where
  select := SelectClause.derives d.select
  source := d.from_.isKeyword
  sources := d.sources.derives Source.derives
  nodup := by
    rw [query, List.map_map]
    exact d.nodup
  condition := WhereClause.derives d.where_
  groups := ByClause.derives Name.derives d.groups
  orders := ByClause.derives Ordered.derives d.orders
  result := rfl

theorem exists_statement {q : Query} (h : States ts q) :
    ∃ d : Statement, d.tokens = ts ∧ d.query = q := by
  obtain ⟨hselect, hk, hsources, hnodup, hcondition, hgroups, horders, hresult⟩ := h
  obtain ⟨result, roots, selection, restriction, groupBy, orders, distinct⟩ := q
  obtain rfl : result = resultOf selection := hresult
  replace hnodup : (roots.map (·.aliasName)).Nodup := hnodup
  obtain ⟨select, rfl, rfl, rfl⟩ := exists_selectClause hselect
  obtain ⟨k, rfl⟩ := exists_keyword hk
  obtain ⟨sources, rfl, rfl⟩ := exists_commaList (fun _ => exists_source) hsources
  obtain ⟨where_, rfl, rfl⟩ := exists_whereClause hcondition
  obtain ⟨groups, rfl, rfl⟩ := exists_byClause (fun _ => exists_name) hgroups
  obtain ⟨orders, rfl, rfl⟩ := exists_byClause (fun _ => exists_ordered) horders
  rw [List.map_map] at hnodup
  exact ⟨⟨select, k, sources, hnodup, where_, groups, orders⟩, rfl, rfl⟩

/-- The tokens that state a query are those that have a derivation which denotes it. -/
theorem states_iff {q : Query} : States ts q ↔ ∃ d : Statement, d.tokens = ts ∧ d.query = q := by
  constructor
  · exact exists_statement
  · rintro ⟨d, rfl, rfl⟩
    exact .intro d.parts

end

end EntityQuery.QueryText.Derivation
