import EntityQuery.Proofs.Grammar.Derivation
/-! The grammar is unambiguous: tokens have one derivation at most. So reading a statement finds the
one derivation there is, and the query that it denotes. -/
namespace EntityQuery.QueryText.Derivation
open Criteria

/-- Where `follows` holds of what comes next, the tokens tell what derives the first of them, and
where it ends. -/
def Determined {γ : Type} (f : γ → List Token) (follows : List Token → Prop) : Prop :=
  ∀ d d' rest rest', follows rest → follows rest' → f d ++ rest = f d' ++ rest' →
    d = d' ∧ rest = rest'

section
variable {word other : String}

theorem Keyword.token_inj {k k' : Keyword word} (h : k.token = k'.token) : k = k' := by
  cases k
  cases k'
  cases h
  rfl

theorem Name.token_inj {n n' : Name} (h : n.token = n'.token) : n = n' := by
  cases n
  cases n'
  cases h
  rfl

theorem Keyword.token_ne (h : word ≠ other) (k : Keyword word) (k' : Keyword other) :
    k.token ≠ k'.token := by
  intro he
  have htext : k.text = k'.text := Token.word.inj he
  exact h (by rw [← k.folded, htext, k'.folded])

theorem Keyword.ne_name (h : word ∈ reserved) (k : Keyword word) (n : Name) :
    k.token ≠ n.token := by
  intro he
  have htext : k.text = n.text := Token.word.inj he
  have hreserved := isReserved_of_isKeyword (s := k.text) k.isKeyword h
  rw [htext, n.free] at hreserved
  cases hreserved

theorem keyword?_token_ne_none (k : Keyword word) (rest : List Token) :
    keyword? word (k.token :: rest) ≠ none := by
  rw [keyword?_of_isKeyword k.isKeyword]
  exact nofun

theorem determined_optional (word : String) :
    Determined (fun k : Option (Keyword word) => optionalTokens k)
      (fun rest => keyword? word rest = none) := by
  intro k k' rest rest' hr hr' he
  cases k with
  | none =>
    cases k' with
    | none => exact ⟨rfl, he⟩
    | some k' =>
      obtain rfl : rest = k'.token :: rest' := he
      exact (keyword?_token_ne_none k' rest' hr).elim
  | some k =>
    cases k' with
    | none =>
      obtain rfl : k.token :: rest = rest' := he
      exact (keyword?_token_ne_none k rest hr').elim
    | some k' =>
      obtain ⟨hk, hrest⟩ := List.cons.inj he
      exact ⟨congrArg some (Keyword.token_inj hk), hrest⟩

end

theorem Operand.token_inj {o o' : Operand} (h : o.token = o'.token) : o = o' := by
  -- Two operands of one kind have the same token only if they are equal, and two kinds have none
  -- in common.
  cases o <;> cases o' <;> first
    | exact congrArg _ (Keyword.token_inj h)
    | exact congrArg _ (Name.token_inj h)
    | exact (Keyword.token_ne (by decide) _ _ h).elim
    | exact (Keyword.ne_name (by decide) _ _ h).elim
    | exact (Keyword.ne_name (by decide) _ _ h.symm).elim
    | (simp only [Operand.token, Keyword.token, Name.token, reduceCtorEq] at h; done)
    | (simp only [Operand.token, Token.number.injEq, Token.quoted.injEq, Token.parameter.injEq] at h
       rw [h])

theorem optional_append_ne {word other : String} (hnot : other ≠ "not") (hne : other ≠ word)
    (negated : Option (Keyword "not")) (k : Keyword word) (k' : Keyword other)
    (us rest : List Token) : optionalTokens negated ++ k.token :: us ≠ k'.token :: rest := by
  intro he
  cases negated with
  | none => exact Keyword.token_ne hne k' k (List.cons.inj he).1.symm
  | some n => exact Keyword.token_ne hnot k' n (List.cons.inj he).1.symm

theorem optional_append_ne_symbol {word : String} (negated : Option (Keyword "not"))
    (k : Keyword word) (us rest : List Token) (s : Symbol) :
    optionalTokens negated ++ k.token :: us ≠ .symbol s :: rest := by
  cases negated <;> exact nofun

theorem determined_relation : Determined Relation.tokens (fun _ => True) := by
  intro r r' rest rest' _ _ he
  have hnot : ∀ {word : String} (_ : word ≠ "not") (k : Keyword word) (us : List Token),
      keyword? "not" (k.token :: us) = none := fun hne k us => keyword?_of_other k.isKeyword hne
  cases r <;> cases r' <;>
    simp only [Relation.tokens, List.cons_append, List.append_assoc, List.nil_append] at he
  case comparison.comparison left op right left' op' right' =>
    simp only [List.cons.injEq, Token.symbol.injEq, Symbol.comparison.injEq] at he
    obtain ⟨hl, rfl, hr, rfl⟩ := he
    rw [Operand.token_inj hl, Operand.token_inj hr]
    exact ⟨rfl, rfl⟩
  case like.like left negated k pattern left' negated' k' pattern' =>
    obtain ⟨hl, htail⟩ := List.cons.inj he
    obtain ⟨rfl, hlike⟩ := determined_optional "not" _ _ _ _ (hnot (by decide) k _)
      (hnot (by decide) k' _) htail
    obtain ⟨hk, hpattern⟩ := List.cons.inj hlike
    obtain ⟨hp, rfl⟩ := List.cons.inj hpattern
    rw [Operand.token_inj hl, Keyword.token_inj hk, Operand.token_inj hp]
    exact ⟨rfl, rfl⟩
  case null.null left is negated k left' is' negated' k' =>
    obtain ⟨hl, htail⟩ := List.cons.inj he
    obtain ⟨hi, hcheck⟩ := List.cons.inj htail
    obtain ⟨rfl, hnull⟩ := determined_optional "not" _ _ _ _ (hnot (by decide) k _)
      (hnot (by decide) k' _) hcheck
    obtain ⟨hk, rfl⟩ := List.cons.inj hnull
    rw [Operand.token_inj hl, Keyword.token_inj hi, Keyword.token_inj hk]
    exact ⟨rfl, rfl⟩
  case comparison.like negated' k' _ =>
    exact (optional_append_ne_symbol negated' k' _ _ _ (List.cons.inj he).2.symm).elim
  case like.comparison negated k _ _ _ _ =>
    exact (optional_append_ne_symbol negated k _ _ _ (List.cons.inj he).2).elim
  case comparison.null => cases (List.cons.inj (List.cons.inj he).2).1
  case null.comparison => cases (List.cons.inj (List.cons.inj he).2).1
  case like.null negated k _ _ is' _ _ =>
    exact (optional_append_ne (by decide) (by decide) negated k is' _ _ (List.cons.inj he).2).elim
  case null.like _ is _ _ _ negated' k' _ =>
    exact (optional_append_ne (by decide) (by decide) negated' k' is _ _
      (List.cons.inj he).2.symm).elim

def Ends (rest : List Token) : Prop := keyword? "and" rest = none ∧ keyword? "or" rest = none

theorem ends_closing (rest : List Token) : Ends (.symbol .closing :: rest) := ⟨rfl, rfl⟩

theorem Relation.exists_tokens_eq (r : Relation) :
    ∃ (o : Operand) (us : List Token), r.tokens = o.token :: us := by
  cases r with
  | comparison left | like left | null left => exact ⟨left, _, rfl⟩

theorem Relation.tokens_ne_not (r : Relation) (k : Keyword "not") (us rest : List Token) :
    r.tokens ++ us ≠ k.token :: rest := by
  obtain ⟨o, vs, hr⟩ := r.exists_tokens_eq
  rw [hr]
  intro he
  have hnot := o.derives.isKeyword_not
  rw [(List.cons.inj he).1, k.isKeyword] at hnot
  cases hnot

theorem Relation.tokens_ne_opening (r : Relation) (us rest : List Token) :
    r.tokens ++ us ≠ .symbol .opening :: rest := by
  obtain ⟨o, vs, hr⟩ := r.exists_tokens_eq
  rw [hr]
  intro he
  have ho := o.derives
  rw [(List.cons.inj he).1] at ho
  cases ho

mutual

theorem Disjunction.determined (d d' : Disjunction) {rest rest' : List Token} (h : Ends rest)
    (h' : Ends rest') (he : d.tokens ++ rest = d'.tokens ++ rest') : d = d' ∧ rest = rest' := by
  have hand : ∀ (k : Keyword "or") (us : List Token), keyword? "and" (k.token :: us) = none :=
    fun k us => keyword?_of_other k.isKeyword (by decide)
  match d, d' with
  | .one c, .one c' =>
    rw [Disjunction.tokens, Disjunction.tokens] at he
    obtain ⟨rfl, rfl⟩ := c.determined c' h.1 h'.1 he
    exact ⟨rfl, rfl⟩
  | .one c, .or c' k' more' =>
    rw [Disjunction.tokens, Disjunction.tokens, List.append_assoc] at he
    obtain ⟨-, rfl⟩ := c.determined c' h.1 (hand k' _) he
    exact (keyword?_token_ne_none k' _ h.2).elim
  | .or c k more, .one c' =>
    rw [Disjunction.tokens, Disjunction.tokens, List.append_assoc] at he
    obtain ⟨-, rfl⟩ := c.determined c' (hand k _) h'.1 he
    exact (keyword?_token_ne_none k _ h'.2).elim
  | .or c k more, .or c' k' more' =>
    rw [Disjunction.tokens, Disjunction.tokens, List.append_assoc, List.append_assoc] at he
    obtain ⟨rfl, htail⟩ := c.determined c' (hand k _) (hand k' _) he
    obtain ⟨hk, hmore⟩ := List.cons.inj htail
    obtain ⟨rfl, rfl⟩ := more.determined more' h h' hmore
    rw [Keyword.token_inj hk]
    exact ⟨rfl, rfl⟩

theorem Conjunction.determined (c c' : Conjunction) {rest rest' : List Token}
    (h : keyword? "and" rest = none) (h' : keyword? "and" rest' = none)
    (he : c.tokens ++ rest = c'.tokens ++ rest') : c = c' ∧ rest = rest' := by
  match c, c' with
  | .one n, .one n' =>
    rw [Conjunction.tokens, Conjunction.tokens] at he
    obtain ⟨rfl, rfl⟩ := n.determined n' he
    exact ⟨rfl, rfl⟩
  | .one n, .and n' k' more' =>
    rw [Conjunction.tokens, Conjunction.tokens, List.append_assoc] at he
    obtain ⟨-, rfl⟩ := n.determined n' he
    exact (keyword?_token_ne_none k' _ h).elim
  | .and n k more, .one n' =>
    rw [Conjunction.tokens, Conjunction.tokens, List.append_assoc] at he
    obtain ⟨-, rfl⟩ := n.determined n' he
    exact (keyword?_token_ne_none k _ h').elim
  | .and n k more, .and n' k' more' =>
    rw [Conjunction.tokens, Conjunction.tokens, List.append_assoc, List.append_assoc] at he
    obtain ⟨rfl, htail⟩ := n.determined n' he
    obtain ⟨hk, hmore⟩ := List.cons.inj htail
    obtain ⟨rfl, rfl⟩ := more.determined more' h h' hmore
    rw [Keyword.token_inj hk]
    exact ⟨rfl, rfl⟩

theorem Negation.determined (n n' : Negation) {rest rest' : List Token}
    (he : n.tokens ++ rest = n'.tokens ++ rest') : n = n' ∧ rest = rest' := by
  match n, n' with
  | .not k n, .not k' n' =>
    rw [Negation.tokens, Negation.tokens] at he
    obtain ⟨hk, htail⟩ := List.cons.inj he
    obtain ⟨rfl, rfl⟩ := n.determined n' htail
    rw [Keyword.token_inj hk]
    exact ⟨rfl, rfl⟩
  | .group d, .group d' =>
    rw [Negation.tokens, Negation.tokens] at he
    simp only [List.cons_append, List.append_assoc, List.nil_append] at he
    obtain ⟨rfl, hclosing⟩ := d.determined d' (ends_closing rest) (ends_closing rest')
      (List.cons.inj he).2
    exact ⟨rfl, (List.cons.inj hclosing).2⟩
  | .relation r, .relation r' =>
    rw [Negation.tokens, Negation.tokens] at he
    obtain ⟨rfl, rfl⟩ := determined_relation r r' rest rest' trivial trivial he
    exact ⟨rfl, rfl⟩
  | .not k n, .group d' =>
    rw [Negation.tokens, Negation.tokens] at he
    cases (List.cons.inj he).1
  | .group d, .not k' n' =>
    rw [Negation.tokens, Negation.tokens] at he
    cases (List.cons.inj he).1
  | .not k n, .relation r' =>
    rw [Negation.tokens, Negation.tokens] at he
    exact (r'.tokens_ne_not k _ _ he.symm).elim
  | .relation r, .not k' n' =>
    rw [Negation.tokens, Negation.tokens] at he
    exact (r.tokens_ne_not k' _ _ he).elim
  | .group d, .relation r' =>
    rw [Negation.tokens, Negation.tokens] at he
    exact (r'.tokens_ne_opening _ _ he.symm).elim
  | .relation r, .group d' =>
    rw [Negation.tokens, Negation.tokens] at he
    exact (r.tokens_ne_opening _ _ he).elim

end

section
variable {α γ : Type} {f : α → List Token} {follows : List Token → Prop} {word : String}

theorem determined_commaList (hf : Determined f follows)
    (hcomma : ∀ rest, follows (.symbol .comma :: rest)) :
    Determined (CommaList.tokens f)
      (fun rest => follows rest ∧ symbolAt? .comma rest = none) := by
  intro l l' rest rest' h h' he
  have hnone : ∀ us, symbolAt? .comma (.symbol .comma :: us) ≠ none := fun us => by
    rw [symbolAt?, if_pos rfl]
    exact nofun
  induction l generalizing l' with
  | one a =>
    cases l' with
    | one a' =>
      obtain ⟨rfl, rfl⟩ := hf a a' rest rest' h.1 h'.1 he
      exact ⟨rfl, rfl⟩
    | more a' more' =>
      rw [CommaList.tokens, CommaList.tokens, List.append_assoc] at he
      obtain ⟨-, rfl⟩ := hf a a' _ _ h.1 (hcomma _) he
      exact (hnone _ h.2).elim
  | more a more ih =>
    cases l' with
    | one a' =>
      rw [CommaList.tokens, CommaList.tokens, List.append_assoc] at he
      obtain ⟨-, rfl⟩ := hf a a' _ _ (hcomma _) h'.1 he
      exact (hnone _ h'.2).elim
    | more a' more' =>
      rw [CommaList.tokens, CommaList.tokens, List.append_assoc, List.append_assoc] at he
      obtain ⟨rfl, htail⟩ := hf a a' _ _ (hcomma _) (hcomma _) he
      obtain ⟨rfl, rfl⟩ := ih more' (List.cons.inj htail).2
      exact ⟨rfl, rfl⟩

theorem determined_clause (hstart : ∀ c : α, ∃ (k : Keyword word) (us : List Token),
    f c = k.token :: us) (hf : Determined f follows) : Determined (Statement.clauseTokens f)
      (fun rest => follows rest ∧ keyword? word rest = none) := by
  intro c c' rest rest' h h' he
  cases c with
  | none =>
    cases c' with
    | none => exact ⟨rfl, he⟩
    | some c' =>
      obtain ⟨k, us, hus⟩ := hstart c'
      obtain rfl : rest = f c' ++ rest' := he
      rw [hus] at h
      exact (keyword?_token_ne_none k _ h.2).elim
  | some c =>
    cases c' with
    | none =>
      obtain ⟨k, us, hus⟩ := hstart c
      obtain rfl : f c ++ rest = rest' := he
      rw [hus] at h'
      exact (keyword?_token_ne_none k _ h'.2).elim
    | some c' =>
      obtain ⟨rfl, rfl⟩ := hf c c' rest rest' h.1 h'.1 he
      exact ⟨rfl, rfl⟩

theorem determined_byClause (hf : Determined f follows)
    (hcomma : ∀ rest, follows (.symbol .comma :: rest)) :
    Determined (fun c : ByClause word α => c.tokens f)
      (fun rest => follows rest ∧ symbolAt? .comma rest = none) := by
  intro c c' rest rest' h h' he
  obtain ⟨start, by_, l⟩ := c
  obtain ⟨start', by_', l'⟩ := c'
  obtain ⟨hstart, htail⟩ := List.cons.inj he
  obtain ⟨hby, hlist⟩ := List.cons.inj htail
  obtain ⟨rfl, rfl⟩ := determined_commaList hf hcomma l l' rest rest' h h' hlist
  obtain rfl : start = start' := Keyword.token_inj hstart
  obtain rfl : by_ = by_' := Keyword.token_inj hby
  exact ⟨rfl, rfl⟩

end

theorem determined_name : Determined (fun n : Name => [n.token]) (fun _ => True) := by
  intro n n' rest rest' _ _ he
  obtain ⟨hn, rfl⟩ := List.cons.inj he
  exact ⟨Name.token_inj hn, rfl⟩

theorem determined_ordered : Determined Ordered.tokens Undirected := by
  intro o o' rest rest' h h' he
  cases o <;> cases o' <;>
    simp only [Ordered.tokens, List.cons_append, List.nil_append] at he <;>
    obtain ⟨hn, htail⟩ := List.cons.inj he <;> obtain rfl := Name.token_inj hn
  case plain.plain n => exact ⟨rfl, htail⟩
  case asc.asc k k' =>
    obtain ⟨hk, rfl⟩ := List.cons.inj htail
    rw [Keyword.token_inj hk]
    exact ⟨rfl, rfl⟩
  case desc.desc k k' =>
    obtain ⟨hk, rfl⟩ := List.cons.inj htail
    rw [Keyword.token_inj hk]
    exact ⟨rfl, rfl⟩
  case plain.asc k' =>
    subst htail
    exact (keyword?_token_ne_none k' _ h.2).elim
  case asc.plain k =>
    subst htail
    exact (keyword?_token_ne_none k _ h'.2).elim
  case plain.desc k' =>
    subst htail
    exact (keyword?_token_ne_none k' _ h.1).elim
  case desc.plain k =>
    subst htail
    exact (keyword?_token_ne_none k _ h'.1).elim
  case asc.desc k k' => exact (Keyword.token_ne (by decide) k k' (List.cons.inj htail).1).elim
  case desc.asc k k' => exact (Keyword.token_ne (by decide) k k' (List.cons.inj htail).1).elim

theorem determined_source : Determined Source.tokens (fun _ => True) := by
  intro s s' rest rest' _ _ he
  obtain ⟨entity, hentity, as, name, hname⟩ := s
  obtain ⟨entity', hentity', as', name', hname'⟩ := s'
  simp only [Source.tokens, List.cons_append, List.append_assoc, List.nil_append] at he
  obtain ⟨hentity, htail⟩ := List.cons.inj he
  obtain rfl := Token.word.inj hentity
  have hfree : ∀ (n : Name) (us : List Token), keyword? "as" (n.token :: us) = none :=
    fun n us => keyword?_word_of_isReserved n.free (by decide)
  obtain ⟨rfl, hlast⟩ := determined_optional "as" _ _ _ _ (hfree name _) (hfree name' _) htail
  obtain ⟨hn, rfl⟩ := List.cons.inj hlast
  obtain rfl := Name.token_inj hn
  exact ⟨rfl, rfl⟩

theorem determined_selected : Determined Selected.tokens (fun _ => True) := by
  intro s s' rest rest' _ _ he
  have hfree : ∀ (n : Name) (us : List Token), keyword? "distinct" (n.token :: us) = none :=
    fun n us => keyword?_word_of_isReserved n.free (by decide)
  cases s <;> cases s' <;>
    simp only [Selected.tokens, List.cons_append, List.append_assoc, List.nil_append] at he
  case source.source n plain n' plain' =>
    obtain ⟨hn, rfl⟩ := List.cons.inj he
    obtain rfl := Name.token_inj hn
    exact ⟨rfl, rfl⟩
  case count.count k distinct n k' distinct' n' =>
    obtain ⟨hk, hopening⟩ := List.cons.inj he
    obtain ⟨rfl, hname⟩ := determined_optional "distinct" _ _ _ _ (hfree n _) (hfree n' _)
      (List.cons.inj hopening).2
    obtain ⟨hn, hclosing⟩ := List.cons.inj hname
    rw [Keyword.token_inj hk, Name.token_inj hn]
    exact ⟨rfl, (List.cons.inj hclosing).2⟩
  case source.count n plain k' distinct' n' =>
    exact (Keyword.ne_name (by decide) k' n (List.cons.inj he).1.symm).elim
  case count.source k distinct n n' plain' =>
    exact (Keyword.ne_name (by decide) k n' (List.cons.inj he).1).elim

theorem determined_selectClause : Determined SelectClause.tokens (fun _ => True) := by
  intro s s' rest rest' _ _ he
  obtain ⟨select, distinct, selected⟩ := s
  obtain ⟨select', distinct', selected'⟩ := s'
  simp only [SelectClause.tokens, List.cons_append, List.append_assoc] at he
  obtain ⟨hselect, htail⟩ := List.cons.inj he
  have hnone : ∀ (s : Selected) (us : List Token), keyword? "distinct" (s.tokens ++ us) = none :=
    fun s us => s.derives.keyword?_distinct us
  obtain ⟨rfl, hselected⟩ := determined_optional "distinct" _ _ _ _ (hnone selected _)
    (hnone selected' _) htail
  obtain ⟨rfl, rfl⟩ := determined_selected _ _ _ _ trivial trivial hselected
  rw [Keyword.token_inj hselect]
  exact ⟨rfl, rfl⟩

theorem determined_whereClause : Determined WhereClause.tokens Ends := by
  intro w w' rest rest' h h' he
  obtain ⟨where_, condition⟩ := w
  obtain ⟨where_', condition'⟩ := w'
  obtain ⟨hwhere, htail⟩ := List.cons.inj he
  obtain ⟨rfl, rfl⟩ := condition.determined condition' h h' htail
  obtain rfl : where_ = where_' := Keyword.token_inj hwhere
  exact ⟨rfl, rfl⟩

theorem Statement.heads (d : Statement) :
    Heads ["order"] (clauseTokens (ByClause.tokens Ordered.tokens) d.orders) ∧
      Heads ["group", "order"] (clauseTokens (ByClause.tokens fun n : Name => [n.token]) d.groups ++
        clauseTokens (ByClause.tokens Ordered.tokens) d.orders) ∧
      Heads ["where", "group", "order"] (clauseTokens WhereClause.tokens d.where_ ++
        (clauseTokens (ByClause.tokens fun n : Name => [n.token]) d.groups ++
          clauseTokens (ByClause.tokens Ordered.tokens) d.orders)) := by
  have hend : Heads [] ([] : List Token) := .inl rfl
  have horders := d.parts.orders.heads hend
  rw [List.append_nil] at horders
  have hgroups := d.parts.groups.heads horders
  exact ⟨horders, hgroups, d.parts.condition.heads hgroups⟩

/-- Tokens have one derivation at most. -/
theorem Statement.tokens_inj {d d' : Statement} (h : d.tokens = d'.tokens) : d = d' := by
  obtain ⟨horders, hgroups, hwhere⟩ := d.heads
  obtain ⟨horders', hgroups', hwhere'⟩ := d'.heads
  obtain ⟨select, from_, sources, nodup, where_, groups, orders⟩ := d
  obtain ⟨select', from_', sources', nodup', where_', groups', orders'⟩ := d'
  have hselect : ∀ (k : Keyword "from") (us : List Token), keyword? "select" (k.token :: us) = none :=
    fun k us => keyword?_of_other k.isKeyword (by decide)
  obtain ⟨rfl, hfrom⟩ := determined_clause (fun s : SelectClause => ⟨s.select, _, rfl⟩)
    determined_selectClause _ _ _ _ ⟨trivial, hselect from_ _⟩ ⟨trivial, hselect from_' _⟩ h
  obtain ⟨hk, hsources⟩ := List.cons.inj hfrom
  obtain rfl : from_ = from_' := Keyword.token_inj hk
  obtain ⟨rfl, hrest⟩ := determined_commaList determined_source (fun _ => trivial) _ _ _ _
    ⟨trivial, hwhere.symbolAt?_eq_none _⟩ ⟨trivial, hwhere'.symbolAt?_eq_none _⟩ hsources
  have hends : ∀ {ts : List Token}, Heads ["group", "order"] ts →
      Ends ts ∧ keyword? "where" ts = none := fun hts =>
    ⟨⟨hts.keyword?_eq_none (by decide), hts.keyword?_eq_none (by decide)⟩,
      hts.keyword?_eq_none (by decide)⟩
  obtain ⟨rfl, hby⟩ := determined_clause (fun w : WhereClause => ⟨w.where_, _, rfl⟩)
    determined_whereClause _ _ _ _ (hends hgroups) (hends hgroups') hrest
  have hgroup : ∀ {ts : List Token}, Heads ["order"] ts →
      (True ∧ symbolAt? .comma ts = none) ∧ keyword? "group" ts = none := fun hts =>
    ⟨⟨trivial, hts.symbolAt?_eq_none _⟩, hts.keyword?_eq_none (by decide)⟩
  obtain ⟨rfl, horder⟩ := determined_clause (fun c : ByClause "group" Name => ⟨c.start, _, rfl⟩)
    (determined_byClause determined_name fun _ => trivial) _ _ _ _ (hgroup horders)
    (hgroup horders') hby
  obtain ⟨rfl, -⟩ := determined_clause (fun c : ByClause "order" Ordered => ⟨c.start, _, rfl⟩)
    (determined_byClause determined_ordered fun _ => ⟨rfl, rfl⟩) orders orders' [] []
    ⟨⟨⟨rfl, rfl⟩, rfl⟩, rfl⟩ ⟨⟨⟨rfl, rfl⟩, rfl⟩, rfl⟩ (congrArg (· ++ []) horder)
  rfl

/-- A list of tokens is read exactly when it has a derivation, then it has just one, and it is read
as the query that the derivation denotes. -/
theorem query_eq_ok_iff_derivation (ts : List Token) :
    (∀ q, QueryText.query ts = .ok q ↔ ∃ d : Statement, d.tokens = ts ∧ d.query = q) ∧
      ∀ d d' : Statement, d.tokens = ts → d'.tokens = ts → d = d' := by
  constructor
  · intro q
    rw [query_eq_ok_iff, states_iff]
  · rintro d d' rfl h
    exact Statement.tokens_inj h.symm

end EntityQuery.QueryText.Derivation
