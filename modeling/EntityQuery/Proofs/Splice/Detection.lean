import EntityQuery.Proofs.Splice.Augment
/-! The alias that augmentation fills in. It is the one that the parser gives to the first source,
but some words that the parser takes for aliases are keywords to the detection. -/
namespace EntityQuery
open Criteria Evaluation Text

namespace QueryText

/-- Keywords that are no aliases when one is looked for, and are when a text is parsed. -/
def overlooked : List String := ["left", "right", "inner", "outer", "fetch", "set", "union"]

theorem isOneOf_notAliases {a : String} (h : isReserved a = false) :
    isOneOf notAliases a = isOneOf overlooked a := by
  have hsplit : ∀ w ∈ notAliases, w ∉ overlooked → w ∈ reserved := by decide
  have hsub : overlooked ⊆ notAliases := by decide
  unfold isReserved isOneOf at h
  unfold isOneOf
  rw [Bool.eq_iff_iff, List.contains_iff_mem, List.contains_iff_mem]
  refine ⟨fun hmem => ?_, fun hmem => hsub hmem⟩
  by_contra hn
  rw [List.contains_iff_mem.2 (hsplit _ hmem hn)] at h
  cases h

/-- In an accepted text the alias of the first source is found, unless it is an overlooked one. -/
theorem detectAlias?_of_states {tables : Tables} {text : List Char} {ts : List Token} {q : Query}
    (hscan : scan text = .ok ts) (hs : States ts q) (hvalid : Valid tables q) (hascii : Ascii ts) :
    ∃ first rest, q.roots = first :: rest ∧ detectAlias? text =
      if isOneOf overlooked first.aliasName then none else some first.aliasName.toList := by
  obtain ⟨first, rest, hroots, hfirst⟩ := firstAlias?_of_states (scan_eq_ok_iff.1 hscan) hs hascii
    (hs.regular hvalid).selected
  have hreserved : ∀ r ∈ q.roots, isReserved r.aliasName = false := by
    obtain ⟨hparts⟩ := hs
    exact hparts.sources.items fun _ _ h => h.alias.1
  rw [hroots] at hreserved
  refine ⟨first, rest, hroots, ?_⟩
  rw [detectAlias?, hfirst, Option.filter_some, String.ofList_toList,
    isOneOf_notAliases (hreserved first (.head _))]
  cases isOneOf overlooked first.aliasName <;> rfl

end QueryText

open QueryText

namespace TextContext
variable {s : Session} {c : TextContext} {text source condition : String}
  {parameters : Dictionary Value}

def augmentAs (c : TextContext) (s : Session) (text : String) (a : List Char)
    (source condition : String) (parameters : Dictionary Value) :
    Except AugmentError TextContext := do
  let new := addClauses text.toList source.toList (fillAlias a condition.toList)
  let query ← (s.prepareText (String.ofList new)).mapError .session
  let query ← (bindAll query parameters).mapError .session
  return { c with query }

theorem augment_eq (h : c.text s = .ok text) (source condition : String)
    (parameters : Dictionary Value) : c.augment s source condition parameters =
    match detectAlias? text.toList with
    | none => .error (.aliasNotDetected text)
    | some a => c.augmentAs s text a source condition parameters := by
  unfold augment
  rw [h]
  rfl

theorem augmentAs_ne_aliasNotDetected {a : List Char} (t : String) :
    c.augmentAs s text a source condition parameters ≠ .error (.aliasNotDetected t) := by
  unfold augmentAs
  dsimp only
  cases s.prepareText (String.ofList (addClauses text.toList source.toList
    (fillAlias a condition.toList))) with
  | error e => nofun
  | ok p =>
    show ((bindAll p parameters).mapError AugmentError.session >>= _) ≠ _
    cases bindAll p parameters <;> nofun

/-- Detection and parser agree on the alias of an accepted text, but for the overlooked ones: the
augmentation fills in the alias of the first source, and there is none to fill in exactly when that
alias is overlooked. -/
theorem augment_eq_of_accepted (hm : s.provider = .memory) (ha : s.answers = none)
    {p : PreparedQuery} {ts : List Token} (hp : s.prepareText text = .ok p)
    (hts : scan text.toList = .ok ts) (hascii : Ascii ts) :
    ∃ q first rest, p.plan = .stored q (some text) q.parameters [] ∧ q.roots = first :: rest ∧
      detectAlias? text.toList =
        (if isOneOf overlooked first.aliasName then none else some first.aliasName.toList) ∧
      ∀ (c : TextContext) named b, c.query.plan = .stored q (some text) named b →
        ∀ source condition parameters, c.augment s source condition parameters =
          (if isOneOf overlooked first.aliasName then .error (.aliasNotDetected text)
          else c.augmentAs s text first.aliasName.toList source condition parameters) ∧
        ((∃ t, c.augment s source condition parameters = .error (.aliasNotDetected t)) ↔
          isOneOf overlooked first.aliasName = true) := by
  obtain ⟨us, q, hscan, hs, hvalid, rfl⟩ := (Session.prepareText_eq_ok_iff ha).1 hp
  obtain rfl : us = ts := Except.ok.inj (hscan.symm.trans hts)
  obtain ⟨first, rest, hroots, hdetect⟩ := detectAlias?_of_states hscan hs hvalid hascii
  refine ⟨q, first, rest, rfl, hroots, hdetect, fun c named b hc source condition parameters => ?_⟩
  have haugment := augment_eq (text_eq_ok hm hc) source condition parameters
  rw [hdetect] at haugment
  cases hover : isOneOf overlooked first.aliasName with
  | true =>
    rw [hover] at haugment
    exact ⟨haugment, fun _ => rfl, fun _ => ⟨text, haugment⟩⟩
  | false =>
    rw [hover] at haugment
    refine ⟨haugment, fun ⟨t, ht⟩ => ?_, nofun⟩
    rw [haugment] at ht
    exact absurd ht (augmentAs_ne_aliasNotDetected t)

def overSource (a : String) : Query where
  result := .entity
  roots := [⟨"E", a⟩]

theorem prepareText_overSource {a : String} (hr : isReserved a = false) (hd : hasDot a = false)
    {s : Session} (ha : s.answers = none) (hvalid : Valid s.store.tables (overSource a))
    (hscan : scan text.toList = .ok [.word "from", .word "E", .word a]) :
    s.prepareText text = .ok ⟨.stored (overSource a) (some text) [] [], none, []⟩ := by
  have hparts : Parts (overSource a) [] (.word "from") [.word "E", .word a] [] [] [] :=
    ⟨.absent, by cbv, .one (.intro .absent hr hd (by cbv)), List.nodup_singleton _, .absent, .absent,
      .absent, rfl⟩
  exact (Session.prepareText_eq_ok_iff ha).2 ⟨_, _, hscan, .intro hparts, hvalid, rfl⟩

/-- The alias of a source is filled in. -/
theorem augment_eq_of_accepted_plain :
    let s : Session := { store := { tables := [("E", [])] } }
    ∃ p ts, s.prepareText "from E e" = .ok p ∧ scan "from E e".toList = .ok ts ∧ Ascii ts ∧
      detectAlias? "from E e".toList = some ['e'] ∧
      ∀ condition, TextContext.augment ⟨.find, p, none⟩ s "" condition [] =
        TextContext.augmentAs ⟨.find, p, none⟩ s "from E e" ['e'] "" condition [] := by
  intro s
  have hts : scan "from E e".toList = .ok [.word "from", .word "E", .word "e"] := by cbv
  have hascii : Ascii [.word "from", .word "E", .word "e"] := by simp [Ascii]
  have hp := prepareText_overSource (s := s) (by cbv) (by cbv) rfl (validate_eq_ok_iff.1 rfl) hts
  obtain ⟨q, first, rest, hplan, hroots, hdetect, haugment⟩ :=
    augment_eq_of_accepted rfl rfl hp hts hascii
  obtain ⟨rfl, -⟩ := Plan.stored.inj hplan
  obtain ⟨rfl, -⟩ := List.cons.inj hroots
  exact ⟨_, _, hp, hts, hascii, hdetect, fun condition => (haugment _ _ _ rfl "" condition []).1⟩

/-- The parser takes `left` for an alias, and the detection does not. -/
theorem augment_left :
    let s : Session := { store := { tables := [("E", [])] } }
    ∃ p ts, s.prepareText "from E left" = .ok p ∧ scan "from E left".toList = .ok ts ∧ Ascii ts ∧
      p.plan = .stored (overSource "left") (some "from E left") [] [] ∧
      detectAlias? "from E left".toList = none ∧
      TextContext.augment ⟨.find, p, none⟩ s "" "" [] = .error (.aliasNotDetected "from E left") := by
  intro s
  have hts : scan "from E left".toList = .ok [.word "from", .word "E", .word "left"] := by cbv
  have hp := prepareText_overSource (s := s) (by cbv) (by cbv) rfl (validate_eq_ok_iff.1 rfl) hts
  have hdetect : detectAlias? "from E left".toList = none := by decide +kernel
  refine ⟨_, _, hp, hts, by simp [Ascii], rfl, hdetect, ?_⟩
  rw [augment_eq (text_eq_ok rfl rfl), hdetect]

end TextContext

end EntityQuery
