import EntityQuery.Proofs.Criteria.Aliases
import EntityQuery.Proofs.Rendering.Operand
import EntityQuery.Proofs.Splice.Detection
/-! The alias that a query finds for a source. The search for it has no bound of its own and ends
all the same, and what it ends at is a name that text can write, the parser can read and the
detection can find. -/
namespace EntityQuery

namespace Text

theorem lowerAfter_of_ascii {before cs : List Char} (h : ∀ c ∈ cs, c.toNat < 128) :
    lowerAfter before cs = cs.map Char.toLower := by
  induction cs generalizing before with
  | nil => rfl
  | cons c cs ih =>
    have hc := h c List.mem_cons_self
    have hsigma : c ≠ 'Σ' := by
      rintro rfl
      exact absurd hc (by decide)
    rw [lowerAfter, if_neg hsigma, lowerChar, if_pos hc, ih fun x hx => h x (.tail _ hx)]
    rfl

theorem lower_of_ascii {s : String} (h : ∀ c ∈ s.toList, c.toNat < 128) : lower s = foldCase s := by
  rw [lower, foldCase, lowerAfter_of_ascii h]

theorem toLower_of_isDigit {c : Char} (h : c.isDigit = true) : c.toLower = c := by
  have := forall_ascii (p := fun c => !c.isDigit || c.toLower == c) (by decide +kernel)
    (toNat_of_isDigit h)
  simpa [h] using this

end Text

namespace QueryText
open Text
variable {s : String}

theorem ascii_of_isIdentifier (h : isIdentifier s = true) : ∀ c ∈ s.toList, c.toNat < 128 :=
  fun c hc => toNat_of_inIdentifier (inIdentifier_of_isIdentifier h c hc)

theorem inIdentifier_toLower {c : Char} (h : inIdentifier c = true) :
    inIdentifier c.toLower = true := by
  have := forall_ascii (p := fun c => !inIdentifier c || inIdentifier c.toLower) (by decide +kernel)
    (toNat_of_inIdentifier h)
  simpa [h] using this

theorem isIdentifier_foldCase (h : isIdentifier s = true) : isIdentifier (foldCase s) = true := by
  obtain ⟨c, cs, he, hc, hcs⟩ := isIdentifier_iff.1 h
  refine isIdentifier_iff.2 ⟨c.toLower, cs.map Char.toLower, ?_, ?_, fun x hx => ?_⟩
  · rw [foldCase, String.toList_ofList, he, List.map_cons]
  · rw [Char.isAlpha_toLower_eq_isAlpha]
    exact hc.imp_right (congrArg Char.toLower)
  · obtain ⟨y, hy, rfl⟩ := List.mem_map.1 hx
    exact inIdentifier_toLower (hcs y hy)

theorem isIdentifier_append_toString (h : isIdentifier s = true) (n : Nat) :
    isIdentifier (s ++ toString n) = true := by
  obtain ⟨c, cs, he, hc, hcs⟩ := isIdentifier_iff.1 h
  refine isIdentifier_iff.2 ⟨c, cs ++ (toString n).toList, ?_, hc, fun x hx => ?_⟩
  · rw [String.toList_append, he, List.cons_append]
  · obtain hx | hx := List.mem_append.1 hx
    · exact hcs x hx
    · rw [show (toString n).toList = Nat.toDigits 10 n from Nat.toList_repr] at hx
      simp [inIdentifier, Char.isAlphanum, Number.isDigit_of_mem_toDigits x hx]

theorem isOneOf_append_toString {words : List String}
    (hw : ∀ w ∈ words, ∀ c ∈ w.toList, c.isDigit = false) (n : Nat) :
    isOneOf words (s ++ toString n) = false := by
  by_contra hn
  have hmem : foldCase (s ++ toString n) ∈ words := by simpa [isOneOf] using hn
  obtain ⟨d, ds, hds⟩ := Number.exists_toDigits n
  have hd : d.isDigit = true := Number.isDigit_of_mem_toDigits (n := n) d (by simp [hds])
  have hdigit := hw _ hmem d (by
    rw [foldCase, String.toList_ofList, String.toList_append, List.mem_map,
      show (toString n).toList = Nat.toDigits 10 n from Nat.toList_repr, hds]
    exact ⟨d, by simp, toLower_of_isDigit hd⟩)
  rw [hd] at hdigit
  cases hdigit

theorem isOneOf_keywords {a : String} (h : isOneOf Criteria.keywords a = false) :
    isReserved a = false ∧ isOneOf notAliases a = false := by
  have hmono : ∀ words : List String, words ⊆ Criteria.keywords → isOneOf words a = false := by
    intro words hsub
    by_contra hn
    have hmem : foldCase a ∈ words := by simpa [isOneOf] using hn
    rw [isOneOf, List.contains_iff_mem.2 (hsub hmem)] at h
    cases h
  exact ⟨hmono reserved (by decide), hmono notAliases (by decide)⟩

theorem scan_source {entity a : String} (he : isIdentifier entity = true)
    (ha : isIdentifier a = true) :
    scan (entity ++ " " ++ a).toList = .ok [.word entity, .word a] := by
  have hword : ∀ {s : String}, isIdentifier s = true → Lexeme s.toList (.word s) := by
    intro s hs
    simpa using lexeme_identifier hs [] (by simp)
  rw [String.toList_append, String.toList_append, List.append_assoc]
  exact scan_eq_ok_iff.2 ((Lexes.single (hword ha) (by simp)).cons separated_extends (hword he))

theorem detectAlias?_source {entity a : String} (he : isIdentifier entity = true)
    (ha : isIdentifier a = true) (hr : isReserved a = false) (hn : isOneOf notAliases a = false) :
    detectAlias? ("from " ++ (entity ++ " " ++ a)).toList = some a.toList := by
  let q : Criteria.Query := { result := .entity, roots := [⟨entity, a⟩] }
  have hsource : Source [.word entity, .word a] ⟨entity, a⟩ :=
    .intro .absent hr (hasDot_of_isIdentifier ha) (hasDot_of_isIdentifier he)
  have hstates : States [.word "from", .word entity, .word a] q := by
    have hparts : Parts q [] (.word "from") [.word entity, .word a] [] [] [] :=
      ⟨.absent, isKeyword_reserved (by decide), .one hsource, List.nodup_singleton _, .absent,
        .absent, .absent, rfl⟩
    exact .intro hparts
  have hlex : Lexes Token.extends [] ("from " ++ (entity ++ " " ++ a)).toList
      [.word "from", .word entity, .word a] := by
    have := (scan_eq_ok_iff.1 (scan_source he ha)).cons separated_extends
      (lexeme_reserved (k := "from") (by decide))
    rw [String.toList_append]
    exact this
  have hascii : ∀ s, .word s ∈ [Token.word "from", .word entity, .word a] →
      ∀ c ∈ s.toList, c.toNat < 128 := by
    intro s hs
    simp only [List.mem_cons, List.not_mem_nil, or_false, Token.word.injEq] at hs
    obtain rfl | rfl | rfl := hs
    · simp
    · exact ascii_of_isIdentifier he
    · exact ascii_of_isIdentifier ha
  obtain ⟨r, rest, hroots, hfirst⟩ := firstAlias?_of_states hlex hstates hascii fun a flag h => by cases h
  obtain ⟨rfl, -⟩ := List.cons.inj hroots
  rw [detectAlias?, hfirst, Option.filter_some, String.ofList_toList, hn]
  rfl

end QueryText

namespace Criteria
open Text QueryText

namespace Query
variable {q : Query} {base entity : String} {i j : Nat}

/-- The search for a free alias: from the number `i` on, one after the other while they are taken,
it ends at `j`. -/
inductive EndsAt (q : Query) (base : String) : Nat → Nat → Prop
  | free {i : Nat} (h : q.hasAlias (base ++ toString i) = false) : EndsAt q base i i
  | taken {i j : Nat} (h : q.hasAlias (base ++ toString i) = true)
    (hs : EndsAt q base (i + 1) j) : EndsAt q base i j

theorem EndsAt.unique (h : EndsAt q base i j) {k : Nat} (hk : EndsAt q base i k) : k = j := by
  induction h with
  | free h =>
    cases hk with
    | free => rfl
    | taken ht => exact Bool.noConfusion (ht.symm.trans h)
  | taken h _ ih =>
    cases hk with
    | free hf => exact Bool.noConfusion (h.symm.trans hf)
    | taken _ hk => exact ih hk

theorem exists_endsAt {tries : Nat} (h : q.hasAlias (q.freeAlias base i tries) = false) :
    ∃ j ≤ i + tries, EndsAt q base i j ∧ q.freeAlias base i tries = base ++ toString j := by
  induction tries generalizing i with
  | zero => exact ⟨i, Nat.le_refl _, .free h, rfl⟩
  | succ tries ih =>
    cases ht : q.hasAlias (base ++ toString i) with
    | false => exact ⟨i, Nat.le_add_right _ _, .free ht, by rw [freeAlias, ht]; rfl⟩
    | true =>
      have hnext : q.freeAlias base i (tries + 1) = q.freeAlias base (i + 1) tries := by
        rw [freeAlias, if_pos ht]
      rw [hnext] at h ⊢
      obtain ⟨j, hj, hend, he⟩ := ih h
      exact ⟨j, by omega, .taken ht hend, he⟩

/-- The lower-cased entity cannot be the alias: a source has it, or it is a keyword. -/
def Clashes (q : Query) (entity : String) : Prop :=
  q.hasAlias (lower entity) = true ∨ isOneOf keywords (lower entity) = true

theorem aliasFor_of_clashes (h : q.Clashes entity) :
    q.aliasFor entity = q.freeAlias (lower entity) q.roots.length q.roots.length := by
  rw [aliasFor]
  exact if_pos (by simpa [Clashes] using h)

theorem aliasFor_of_not_clashes (h : ¬ q.Clashes entity) : q.aliasFor entity = lower entity := by
  rw [aliasFor]
  exact if_neg (by simpa [Clashes] using h)

/-- An alias that text can write, the parser can read and the detection does not pass over. -/
structure Usable (a : String) : Prop where
  identifier : isIdentifier a = true
  dotless : hasDot a = false
  unreserved : isReserved a = false
  detectable : isOneOf notAliases a = false

theorem usable_of_keywords {a : String} (hi : isIdentifier a = true)
    (hk : isOneOf keywords a = false) : Usable a :=
  ⟨hi, hasDot_of_isIdentifier hi, (isOneOf_keywords hk).1, (isOneOf_keywords hk).2⟩

theorem usable_aliasFor (q : Query) (h : isIdentifier entity = true) :
    Usable (q.aliasFor entity) := by
  have hbase : isIdentifier (lower entity) = true := by
    rw [lower_of_ascii (ascii_of_isIdentifier h)]
    exact isIdentifier_foldCase h
  by_cases hc : q.Clashes entity
  · obtain ⟨j, -, -, he⟩ := exists_endsAt (q.hasAlias_freeAlias (lower entity) q.roots.length)
    rw [aliasFor_of_clashes hc, he]
    refine usable_of_keywords (isIdentifier_append_toString hbase j)
      (isOneOf_append_toString ?_ j)
    simp [keywords]
  · rw [aliasFor_of_not_clashes hc]
    simp only [Clashes, not_or, Bool.not_eq_true] at hc
    exact usable_of_keywords hbase hc.2

/-- Whatever sources a query has, the search for the alias of one more ends, at one alias only.
The source is appended under it, and the alias is new, can be written and read back as the alias of
the source, and is found in text that starts with the source. -/
theorem addRoot_usable (q : Query) (h : isIdentifier entity = true) :
    (q.Clashes entity → ∃ j ≤ q.roots.length + q.roots.length,
      (∀ k, EndsAt q (lower entity) q.roots.length k ↔ k = j) ∧
        q.aliasFor entity = lower entity ++ toString j) ∧
    (¬ q.Clashes entity → q.aliasFor entity = lower entity) ∧
    q.addRoot entity = ({ q with roots := q.roots ++ [⟨entity, q.aliasFor entity⟩] },
      ⟨entity, q.aliasFor entity⟩) ∧
    q.aliasFor entity ∉ q.aliases ∧
    Usable (q.aliasFor entity) ∧
    scan (entity ++ " " ++ q.aliasFor entity).toList =
      .ok [.word entity, .word (q.aliasFor entity)] ∧
    (∀ rest, (source (.word entity :: .word (q.aliasFor entity) :: rest)).Reads
      ⟨entity, q.aliasFor entity⟩ rest) ∧
    detectAlias? ("from " ++ (entity ++ " " ++ q.aliasFor entity)).toList =
      some (q.aliasFor entity).toList := by
  have hu := q.usable_aliasFor h
  refine ⟨fun hc => ?_, aliasFor_of_not_clashes, rfl,
    hasAlias_eq_false_iff.1 (q.hasAlias_aliasFor entity), hu, scan_source h hu.identifier, fun rest => ?_,
    detectAlias?_source h hu.identifier hu.unreserved hu.detectable⟩
  · obtain ⟨j, hj, hend, he⟩ := exists_endsAt (q.hasAlias_freeAlias (lower entity) q.roots.length)
    refine ⟨j, hj, fun k => ⟨hend.unique, ?_⟩, by rw [aliasFor_of_clashes hc, he]⟩
    rintro rfl
    exact hend
  · have hsource : Source [.word entity, .word (q.aliasFor entity)] ⟨entity, q.aliasFor entity⟩ :=
      .intro .absent hu.unreserved hu.dotless (hasDot_of_isIdentifier h)
    exact hsource.reads rest

/-- A keyword for an entity, under names that look like the ones that are found for it. -/
theorem addRoot_usable_order :
    isIdentifier "Order" = true ∧
    ((applyAll { result := .entity }
      [.sourceAs "A" "order2", .sourceAs "B" "order3"]).addRoot "Order").2 =
        ⟨"Order", "order4"⟩ ∧
    detectAlias? "from Order order4".toList = some "order4".toList := by
  have hfound : aliasFor (applyAll { result := .entity }
      [.sourceAs "A" "order2", .sourceAs "B" "order3"]) "Order" = "order4" := by cbv
  have hidentifier : isIdentifier "Order" = true := by cbv
  have h := addRoot_usable (applyAll { result := .entity }
    [.sourceAs "A" "order2", .sourceAs "B" "order3"]) hidentifier
  rw [hfound] at h
  obtain ⟨-, -, hadd, -, -, -, -, hdetect⟩ := h
  exact ⟨hidentifier, by rw [hadd], hdetect⟩

end Query

end Criteria

end EntityQuery
