import EntityQuery.Proofs.Grammar.Refused
import EntityQuery.Proofs.Rendering.Numeral
import EntityQuery.Proofs.Rendering.Query
import EntityQuery.Proofs.Session.Text
/-! The text of a comparison with a number. It is read as the comparison if the number is a signed
integer of 64 bits or a double that is written without an exponent; other integers are read as
doubles, and a text with an exponent is not read at all. -/
namespace EntityQuery.QueryText
open Criteria Text Evaluation

def compared (op : Comparison) (p : Path) (n : Number) : Predicate :=
  .comparison op (.path p) (.literal (.number n))

section
variable {q : Query} {op : Comparison} {p : Path} {n m : Number}

theorem text_restrict (q : Query) (op : Comparison) (p : Path) (n : Number) :
    (q.restrict (compared op p n)).text = frontText (q.restrict (compared op p (.integer 0))) ++
      (" where " ++ (p.text ++ " " ++ op.symbol ++ " " ++ n.text) ++
        backText (q.restrict (compared op p (.integer 0)))) := by
  rw [text_eq]
  rfl

theorem writtenQuery_restrict (q : Query) (op : Comparison) (p : Path) (n : Number) :
    writtenQuery (q.restrict (compared op p n)) =
      { writtenQuery (q.restrict (compared op p (.integer 0))) with
        restriction := some (compared op p n) } := by
  rfl

namespace Printable

theorem lexeme_path (h : Printable (q.restrict (compared op p n))) :
    Lexeme p.text.toList (.word p.text) ∧ Operand (.word p.text) (.path p) := by
  have hmem : Expression.path p ∈ (q.restrict (compared op p n)).expressions := by
    simp [Query.restrict, compared, Query.expressions, Predicate.expressions]
  cases h.writable _ hmem with
  | path hname ha =>
    obtain ⟨hlex, hfree, hpath⟩ := hname.path ha
    have hoperand := Operand.name hfree
    rw [hpath] at hoperand
    exact ⟨hlex, hoperand⟩

theorem ofText_lexeme (h : Printable (q.restrict (compared op p (.integer 0))))
    (hlex : Lexeme n.text.toList (.number m)) :
    ∃ st, Statement.ofText (q.restrict (compared op p n)).text.toList = .ok st ∧
      st.query = writtenQuery (q.restrict (compared op p m)) := by
  obtain ⟨hpath, hoperand⟩ := h.lexeme_path
  obtain ⟨ts, hl, ds, hd, hds⟩ := Writes.comparison op hpath hoperand hlex (.number m) false
  have hwhere := hl.cons separated_extends (lexeme_reserved (k := "where") (by decide))
  have hcondition : Clause (" where " ++ (p.text ++ " " ++ op.symbol ++ " " ++ n.text)) _ :=
    .of_space hwhere (by simp)
  have hclause := WhereClause.present (isKeyword_reserved (k := "where") (by decide)) hd
  rw [hds] at hclause
  obtain ⟨us, hlexes, hstates⟩ := h.states_restricted hcondition hclause
  have hwritten : States us (writtenQuery (q.restrict (compared op p m))) := by
    rw [writtenQuery_restrict]
    exact hstates
  refine ⟨⟨writtenQuery (q.restrict (compared op p m)),
    (writtenQuery (q.restrict (compared op p m))).parameters⟩, ?_, rfl⟩
  rw [text_restrict]
  exact Statement.ofText_eq_ok_iff.2 ⟨us, scan_eq_ok_iff.2 hlexes, hwritten, rfl⟩

theorem ofText_interrupted (h : Printable (q.restrict (compared op p (.integer 0))))
    {us es : List Char} {mark : Char} (htext : n.text.toList = us ++ 'e' :: mark :: es)
    (hmark : inWord mark = false) (hlex : Lexeme us (.number m)) (st : Statement) :
    Statement.ofText (q.restrict (compared op p n)).text.toList ≠ .ok st := by
  obtain ⟨hpath, hoperand⟩ := h.lexeme_path
  obtain ⟨select, sources, hfront, hs, hlisted⟩ := h.front
  obtain ⟨tail, htail⟩ : ∃ tail, tail = (backText (q.restrict (compared op p (.integer 0)))).toList :=
    ⟨_, rfl⟩
  -- The tokens up to the word, with the rest of the text behind them.
  have hnumber : Lexes Token.extends ('e' :: mark :: (es ++ tail)) us [.number m] :=
    .single hlex (by simp [Token.extends]; decide)
  have hcondition := ((hnumber.cons separated_extends (lexeme_comparison op)).cons
    separated_extends hpath).cons separated_extends (lexeme_reserved (k := "where") (by decide))
  have hshown := (hfront.follow (separated_extends.loose (by simp) _)).append hcondition.space
  have hletter : Lexeme ['e'] (.word "e") := .word (by decide) (by simp)
  have hword : Lexes Token.extends (mark :: (es ++ tail)) ['e'] [.word "e"] :=
    .single hletter (by simpa [Token.extends] using hmark)
  have hscan := (Lexes.append (b := ['e']) hshown hword).scan_append
  have hsame : (q.restrict (compared op p n)).text.toList = (frontText
      (q.restrict (compared op p (.integer 0)))).toList ++ ' ' :: ("where".toList ++ ' ' ::
        (p.text.toList ++ ' ' :: (op.symbol.toList ++ ' ' :: us))) ++ ['e'] ++
          mark :: (es ++ tail) := by
    rw [text_restrict, htail]
    simp [htext]
  intro hread
  obtain ⟨ts, hts, hstates, -⟩ := Statement.ofText_eq_ok_iff.1 hread
  rw [hsame, hscan] at hts
  obtain ⟨vs, -, rfl⟩ := map_eq_ok_iff.1 hts
  have hcompared := Disjunction.one (.one (.relation (Relation.comparison hoperand op (.number m))))
  have hquery : query (select ++ .word "from" :: (sources ++ .word "where" :: ([.word p.text,
      .symbol (.comparison op), .number m] ++ .word "e" :: vs))) = .ok st.query := by
    simpa using query_eq_ok_iff.2 hstates
  exact query_interrupted hs (isKeyword_reserved (by decide)) hlisted
    (isKeyword_reserved (by decide)) hcompared (by cbv) st.query hquery

end Printable

/-- The text of a comparison with a number is read as the comparison with an equal number just when
the number is a signed integer of 64 bits or a plain double. -/
theorem ofText_compared_iff (h : Printable (q.restrict (compared op p (.integer 0))))
    (hn : n.InRange) :
    (∃ st m, Statement.ofText (q.restrict (compared op p n)).text.toList = .ok st ∧
      st.query = writtenQuery (q.restrict (compared op p m)) ∧ m.same n = true) ↔ n.IsPlain := by
  constructor
  · rintro ⟨st, m, hread, hquery, hsame⟩
    by_contra hplain
    cases n with
    | integer i =>
      -- The text is read, with a double in the place of the integer.
      obtain ⟨x, hlex⟩ := lexeme_unsigned hn hplain
      obtain ⟨st', hread', hquery'⟩ := h.ofText_lexeme (n := .integer i) hlex
      rw [hread] at hread'
      cases hread'
      rw [hquery] at hquery'
      have hdouble : m = .double x := by
        have hrestriction := congrArg Query.restriction hquery'
        cases hrestriction
        rfl
      rw [hdouble] at hsame
      cases hsame
    | double x =>
      obtain ⟨us, mark, es, k, htext, hmark, hlex⟩ := text_of_not_isPlain hplain
      have hnumeral : (Number.double x).text.toList = us ++ 'e' :: mark :: es := by
        rw [Number.text, String.toList_ofList, htext]
      exact h.ofText_interrupted hnumeral hmark hlex st hread
  · intro hplain
    obtain ⟨st, hread, hquery⟩ := h.ofText_lexeme (lexeme_number hplain)
    exact ⟨st, n, hread, hquery, Number.same_self n⟩

end

def numbered (n : Number) : Query :=
  Query.restrict { result := .entity, roots := [⟨"A", "a"⟩] } (compared .eq ⟨"a", some "x"⟩ n)

theorem printable_numbered : Printable (numbered (.integer 0)) := by
  have hname : Name "a" := ⟨by simp [isIdentifier], by cbv⟩
  refine ⟨by simp [numbered, Query.restrict], by simp [numbered, Query.restrict, isIdentifier],
    by simpa [numbered, Query.restrict], by simp [numbered, Query.restrict], ?_, ?_, ?_,
    by simp [numbered, Query.restrict], ?_⟩
  · simp [numbered, compared, Query.restrict, referredAliases, Query.expressions,
      Predicate.expressions, Expression.path?, Query.hasAlias]
  · simp [numbered, compared, Query.restrict, Query.expressions, Predicate.expressions,
      inIdentifier]
  · have hlong : Literal (.number (.integer 0)) := .integer (by decide)
    simpa [numbered, compared, Query.restrict, Query.expressions, Predicate.expressions] using hlong
  · have hparameters : (numbered (.integer 0)).parameters = [] := by cbv
    simp [hparameters]

theorem text_numbered (n : Number) :
    (numbered n).text = "select a from A a where a.x = " ++ n.text := by
  have hback : backText (numbered (.integer 0)) = "" := rfl
  have hfront : frontText (numbered (.integer 0)) = "select a from A a" := by cbv
  have hpath : Path.text ⟨"a", some "x"⟩ = "a.x" := by cbv
  rw [numbered, text_restrict, ← numbered, hback, hfront, hpath, ← String.toList_inj]
  simp [Comparison.symbol]

def half : Double := ⟨false, 4503599627370496, -53, by decide, by decide, by decide⟩

/-- One half is written without an exponent. -/
theorem ofText_compared_iff_half : (Number.double half).IsPlain ∧
    ∃ st m, Statement.ofText "select a from A a where a.x = 0.5".toList = .ok st ∧
      st.query = writtenQuery (numbered m) ∧ m.same (.double half) = true := by
  have hplain : (Number.double half).IsPlain := by
    refine .inr ?_
    norm_num [Double.size, half]
  have htext : (numbered (.double half)).text = "select a from A a where a.x = 0.5" := by
    have hhalf : half.text = "0.5".toList := by decide +kernel
    rw [text_numbered, Number.text, hhalf, String.ofList_toList]
    rfl
  have hread := (ofText_compared_iff printable_numbered (n := .double half) trivial).2 hplain
  exact ⟨hplain, htext ▸ hread⟩

/-- The double `10 ^ 16`, the least one above `1` that is written with an exponent. -/
def large : Double := ⟨false, 5000000000000000, 1, by decide, by decide, by decide⟩

/-- The text of a comparison with `10 ^ 16` is not read, and the largest integer of 64 bits is read
as a double. -/
theorem ofText_numbered_large :
    (numbered (.double large)).text = "select a from A a where a.x = 1e+16" ∧
    Statement.ofText (numbered (.double large)).text.toList = .error (.unexpectedCharacter '+') ∧
    (numbered (.integer 0xFFFFFFFFFFFFFFFF)).text =
      "select a from A a where a.x = 18446744073709551615" ∧
    ∃ st m, Statement.ofText (numbered (.integer 0xFFFFFFFFFFFFFFFF)).text.toList = .ok st ∧
      st.query = writtenQuery (numbered m) ∧ m.same (.integer 0xFFFFFFFFFFFFFFFF) = false := by
  have htext : (numbered (.double large)).text = "select a from A a where a.x = 1e+16" := by
    have hlarge : large.text = "1e+16".toList := by decide +kernel
    rw [text_numbered, Number.text, hlarge, String.ofList_toList]
    rfl
  have hscan : scan "select a from A a where a.x = 1e+16".toList =
      .error (.unexpectedCharacter '+') := by cbv
  have hinteger : (Number.integer 0xFFFFFFFFFFFFFFFF).text = "18446744073709551615" := by cbv
  have htext' : (numbered (.integer 0xFFFFFFFFFFFFFFFF)).text =
      "select a from A a where a.x = 18446744073709551615" := by
    rw [text_numbered, hinteger]
    rfl
  refine ⟨htext, ?_, htext', ?_⟩
  · rw [htext, Statement.ofText, hscan]
    rfl
  · obtain ⟨x, hlex⟩ := lexeme_unsigned (n := 0xFFFFFFFFFFFFFFFF) (by decide) (by decide)
    obtain ⟨st, hread, hquery⟩ := printable_numbered.ofText_lexeme
      (n := .integer 0xFFFFFFFFFFFFFFFF) hlex
    exact ⟨st, .double x, hread, hquery, rfl⟩

end EntityQuery.QueryText
