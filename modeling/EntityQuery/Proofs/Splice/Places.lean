import EntityQuery.Proofs.Session.Text
import EntityQuery.Proofs.Splice.Misread
/-! The places of the clauses as the parser reads them, against those that the clause scan finds. -/
namespace EntityQuery
open Criteria

namespace QueryText
open Text

/-- The tokens of a text, each with the place where it starts; the text itself starts at `pos`. -/
def scanPlaced (pos : Nat) : List Char → Except Malformed (List (Nat × Token))
  | [] => .ok []
  | c :: cs =>
    if isBlank c then scanPlaced (pos + 1) cs
    else do
      let t ← tokenAt c cs
      let more ← scanPlaced (pos + ((c :: cs).length - t.rest.length)) t.rest
      return (pos, t.value) :: more
termination_by cs => cs.length
decreasing_by
  · simp
  · exact t.shorter

theorem scanPlaced_tokens (cs : List Char) (pos : Nat) :
    (scanPlaced pos cs).map (·.map (·.2)) = scan cs := by
  induction cs using scan.induct generalizing pos with
  | case1 =>
    rw [scanPlaced, scan]
    rfl
  | case2 c cs hc ih => rw [scanPlaced, scan, if_pos hc, if_pos hc, ih]
  | case3 c cs hc ih =>
    rw [scanPlaced, scan, if_neg hc, if_neg hc]
    cases tokenAt c cs with
    | error e => rfl
    | ok t =>
      rw [ok_bind, ok_bind, ← ih t (pos + ((c :: cs).length - t.rest.length))]
      cases scanPlaced (pos + ((c :: cs).length - t.rest.length)) t.rest <;> rfl

def placeOf? (placed : List (Nat × Token)) (ts : List Token) : Option Nat :=
  placed[placed.length - ts.length]?.map (·.1)

def clauseAt? (placed : List (Nat × Token)) (word : String) (ts : List Token) : Option Nat :=
  (keyword? word ts).bind fun _ => placeOf? placed ts

/-- The places of the keywords that the parser reads for clauses. -/
def Clauses.ofParser (text : List Char) : Except Malformed Clauses := do
  let placed ← scanPlaced 0 text
  let (_, _, afterSelect) ← selectClause (placed.map (·.2))
  let afterFrom ← keyword "from" afterSelect
  let sources ← commaList QueryText.source afterFrom.rest
  let (_, afterCondition) ← whereClause sources.rest
  let (_, afterGroups) ← groupClause afterCondition
  return {
    source := clauseAt? placed "from" afterSelect
    condition := clauseAt? placed "where" sources.rest
    tail := (clauseAt? placed "group" afterCondition).or (clauseAt? placed "order" afterGroups) }

section
variable {rest cs a b : List Char} {t : Token} {hs ts : List Token} {placed : List (Nat × Token)}

theorem exists_placed (h : Lexes Token.extends [] cs ts) (pos : Nat) :
    ∃ placed, scanPlaced pos cs = .ok placed ∧ placed.map (·.2) = ts := by
  have hscan := scan_eq_ok_iff.2 h
  rw [← scanPlaced_tokens cs pos] at hscan
  exact map_eq_ok_iff.1 hscan

theorem Lexeme.scanPlaced (hu : Lexeme cs t) (hf : ∀ x ∈ rest.head?, t.extends x = false) (pos : Nat) :
    scanPlaced pos (cs ++ rest) =
      (QueryText.scanPlaced (pos + cs.length) rest).map ((pos, t) :: ·) := by
  obtain ⟨c, cs, rfl, -⟩ := hu.head
  obtain ⟨hlt, ht⟩ := hu.tokenAt hf
  have hlength : (c :: (cs ++ rest)).length - rest.length = (c :: cs).length := by
    rw [← List.cons_append, List.length_append]
    exact Nat.add_sub_cancel ..
  rw [List.cons_append, QueryText.scanPlaced, if_neg (by rw [hu.isBlank_head]; decide), ht, ok_bind]
  dsimp only
  rw [hlength]
  cases QueryText.scanPlaced (pos + (c :: cs).length) rest <;> rfl

theorem Lexes.scanPlaced_append (h : Lexes Token.extends rest cs ts) (pos : Nat) :
    ∃ ps, ps.map (·.2) = ts ∧
      scanPlaced pos (cs ++ rest) = (scanPlaced (pos + cs.length) rest).map (ps ++ ·) := by
  induction h generalizing pos with
  | nil =>
    refine ⟨[], rfl, ?_⟩
    rw [List.nil_append, List.length_nil, Nat.add_zero]
    cases scanPlaced pos rest <;> rfl
  | @blank c cs ts hc h ih =>
    obtain ⟨ps, hps, he⟩ := ih (pos + 1)
    refine ⟨ps, hps, ?_⟩
    rw [List.cons_append, scanPlaced, if_pos hc, he, List.length_cons, Nat.add_comm cs.length,
      Nat.add_assoc]
  | @token us cs t ts hu hf h ih =>
    obtain ⟨ps, hps, he⟩ := ih (pos + us.length)
    refine ⟨(pos, t) :: ps, by rw [List.map_cons, hps], ?_⟩
    rw [List.append_assoc, hu.scanPlaced hf, he, List.length_append, Nat.add_assoc]
    cases scanPlaced (pos + (us.length + cs.length)) rest <;> rfl

theorem placeOf?_append (ha : Lexes Token.extends b a hs)
    (hb : Lexes Token.extends [] b (t :: ts)) (hstarts : ∀ c ∈ b.head?, isBlank c = false)
    (h : scanPlaced 0 (a ++ b) = .ok placed) : placeOf? placed (t :: ts) = some a.length := by
  obtain ⟨ps, -, hfront⟩ := ha.scanPlaced_append 0
  obtain ⟨us, more, rfl, hu, hf, hmore⟩ := hb.uncons hstarts
  obtain ⟨rs, hback, hrs⟩ := exists_placed hmore (0 + a.length + us.length)
  rw [List.append_nil] at hf
  rw [hfront, hu.scanPlaced hf, hback] at h
  obtain rfl := Except.ok.inj h
  have hindex : (ps ++ (0 + a.length, t) :: rs).length - (t :: ts).length = ps.length := by
    rw [← hrs, List.length_append, List.length_cons, List.length_cons, List.length_map]
    exact Nat.add_sub_cancel ..
  rw [placeOf?, hindex, List.getElem?_append_right (Nat.le_refl _), Nat.sub_self, Nat.zero_add]
  rfl

theorem clauseAt?_of_isKeyword {word : String} (ht : t.isKeyword word) :
    clauseAt? placed word (t :: ts) = placeOf? placed (t :: ts) := by
  rw [clauseAt?, keyword?_of_isKeyword ht]
  rfl

theorem clauseAt?_of_none {word : String} (h : keyword? word ts = none) :
    clauseAt? placed word ts = none := by
  rw [clauseAt?, h]
  rfl

end

section
variable {q : Query} {select sources condition groups orders : List Token} {k : Token}
  {a b c d : List Char} {placed : List (Nat × Token)}

theorem Parts.ofParser_of_placed (h : Parts q select k sources condition groups orders)
    {text : List Char} (hplaced : scanPlaced 0 text = .ok placed)
    (htokens : placed.map (·.2) = select ++ k :: (sources ++ (condition ++ (groups ++ orders)))) :
    Clauses.ofParser text = .ok
      { source := clauseAt? placed "from" (k :: (sources ++ (condition ++ (groups ++ orders))))
        condition := clauseAt? placed "where" (condition ++ (groups ++ orders))
        tail := (clauseAt? placed "group" (groups ++ orders)).or
          (clauseAt? placed "order" orders) } := by
  obtain ⟨hselect, ⟨hlt, hsources⟩, hwhere, hgroup, -⟩ := h.reads
  simp only [Clauses.ofParser, hplaced, htokens, hselect, keyword_of_isKeyword h.source, hsources,
    hwhere, hgroup, ok_bind, pure_eq_ok]

theorem Parts.clauseAt?_condition (h : Parts q select k sources condition groups orders)
    (hc : Cut Token.extends a c d (select ++ k :: sources) condition (groups ++ orders))
    (hplaced : scanPlaced 0 (a ++ (c ++ d)) = .ok placed) :
    clauseAt? placed "where" (condition ++ (groups ++ orders)) =
      if c = [] then none else some a.length := by
  have hgroups := h.groups.heads (h.orders.heads (.inl rfl : Heads [] ([] : List Token)))
  rw [List.append_nil] at hgroups
  obtain ⟨rfl, -⟩ | ⟨w, ws, ps, rfl, hw, -, -⟩ := h.condition.shape
  · rw [if_pos (hc.condition_nil_iff.2 rfl)]
    exact clauseAt?_of_none (hgroups.keyword?_eq_none (by decide))
  · have hne : c ≠ [] := fun hnil => by simpa using hc.condition_nil_iff.1 hnil
    rw [if_neg hne, List.cons_append, clauseAt?_of_isKeyword hw]
    exact placeOf?_append hc.head hc.behind hc.behind_starts hplaced

theorem Parts.clauseAt?_tail (h : Parts q select k sources condition groups orders)
    (hc : Cut Token.extends a c d (select ++ k :: sources) condition (groups ++ orders))
    (hplaced : scanPlaced 0 (a ++ (c ++ d)) = .ok placed) :
    (clauseAt? placed "group" (groups ++ orders)).or (clauseAt? placed "order" orders) =
      if d = [] then none else some (a.length + c.length) := by
  have hplace : ∀ t ts, groups ++ orders = t :: ts → d ≠ [] ∧
      placeOf? placed (t :: ts) = some (a.length + c.length) := by
    intro t ts hts
    have hne : d ≠ [] := fun hnil => by simp [hc.tail_nil_iff.1 hnil] at hts
    have hd := hc.tail
    rw [hts] at hd
    rw [← List.length_append]
    exact ⟨hne, placeOf?_append (hc.head.append hc.condition) hd hc.tail_starts
      (by rwa [List.append_assoc _ c])⟩
  have horders := h.orders.heads (.inl rfl : Heads [] ([] : List Token))
  rw [List.append_nil] at horders
  obtain rfl | ⟨g, by_, more, rfl, hg, -⟩ := h.groups.shape
  · rw [List.nil_append, clauseAt?_of_none (horders.keyword?_eq_none (by decide)), Option.none_or]
    obtain rfl | ⟨o, by_, more, rfl, ho, -⟩ := h.orders.shape
    · rw [if_pos (hc.tail_nil_iff.2 rfl)]
      rfl
    · obtain ⟨hne, hplace⟩ := hplace o _ rfl
      rw [if_neg hne, clauseAt?_of_isKeyword ho, hplace]
  · obtain ⟨hne, hplace⟩ := hplace g (by_ :: more ++ orders) rfl
    rw [if_neg hne, List.cons_append, clauseAt?_of_isKeyword hg, hplace, Option.some_or]

theorem Parts.ofParser (h : Parts q select k sources condition groups orders)
    (ha : Lexes Token.extends (b ++ (c ++ d)) a select)
    (hb : Lexes Token.extends (c ++ d) b (k :: sources)) (hbs : ∀ x ∈ b.head?, isBlank x = false)
    (hc : Cut Token.extends (a ++ b) c d (select ++ k :: sources) condition (groups ++ orders)) :
    Clauses.ofParser ((a ++ b) ++ (c ++ d)) = .ok
      { source := some a.length
        condition := if c = [] then none else some (a ++ b).length
        tail := if d = [] then none else some ((a ++ b).length + c.length) } := by
  have hbehind : Lexes Token.extends [] (b ++ (c ++ d))
      (k :: (sources ++ (condition ++ (groups ++ orders)))) :=
    .append (by simpa using hb) hc.behind
  have hall : Lexes Token.extends [] ((a ++ b) ++ (c ++ d))
      (select ++ k :: (sources ++ (condition ++ (groups ++ orders)))) := by
    rw [List.append_assoc]
    exact .append (by simpa using ha) hbehind
  obtain ⟨placed, hplaced, htokens⟩ := exists_placed hall 0
  have hstarts : ∀ x ∈ (b ++ (c ++ d)).head?, isBlank x = false := by
    cases b with
    | nil => exact hc.behind_starts
    | cons x b => exact hbs
  have hfrom : clauseAt? placed "from" (k :: (sources ++ (condition ++ (groups ++ orders)))) =
      some a.length := by
    rw [clauseAt?_of_isKeyword h.source]
    exact placeOf?_append ha hbehind hstarts (by rwa [List.append_assoc] at hplaced)
  rw [h.ofParser_of_placed hplaced htokens, hfrom, h.clauseAt?_condition hc hplaced,
    h.clauseAt?_tail hc hplaced]

theorem Parts.source_ofText (h : Parts q select k sources condition groups orders) (hq : Regular q)
    (ha : Lexes Token.extends (b ++ c) a select) (hb : Lexes Token.extends c b (k :: sources))
    (hbs : ∀ x ∈ b.head?, isBlank x = false) :
    (Clauses.ofText ((a ++ b) ++ c)).source = some a.length := by
  obtain ⟨hquiet, hnumber⟩ := h.select_quiet hq fun s hs => ha.inWord_of_word hs
  obtain ⟨ls, more, rfl, hl, hf, -⟩ := hb.uncons hbs
  rw [List.append_assoc] at ha
  rw [List.append_assoc, List.append_assoc,
    Clauses.ofText_keyword ha hquiet (h.select.depth 0) hnumber hl hf h.source,
    Clauses.ofWords_of_source rfl]

theorem Lexes.clean_iff {x : Char} {rest cs : List Char} {ts : List Token}
    (h : Lexes Token.extends (x :: rest) cs ts) (hx : startsWord x = true) :
    Clean cs.getLast? ↔ ∀ c ∈ cs.getLast?, inWord c = false := by
  refine ⟨fun hclean c hc => (hclean c hc).1, fun hlast => ?_⟩
  obtain hclean | ⟨n, y, -, hy, hin, -⟩ := h.clean_or_number (fun _ _ h => h) hx
  · exact hclean
  · rw [hlast y hy] at hin
    cases hin

theorem Parts.clean_tail_iff (h : Parts q select k sources condition groups orders)
    (hc : Cut Token.extends b c d (select ++ k :: sources) condition (groups ++ orders))
    (hne : d ≠ []) :
    Clean (c.getLast?.or b.getLast?) ↔ ∀ x ∈ (b ++ c).getLast?, inWord x = false := by
  obtain hnil | ⟨g, by_, more, word, htail, hg, -, -⟩ := h.tail_shape
  · exact (hne (hc.tail_nil_iff.2 hnil)).elim
  have hd := hc.tail
  rw [htail] at hd
  obtain ⟨ls, rest, rfl, hl, -, -⟩ := hd.uncons hc.tail_starts
  obtain ⟨x, xs, rfl, hx, -⟩ := hl.of_isKeyword hg
  rw [← List.getLast?_append]
  exact (hc.head.append hc.condition).clean_iff hx

/-- Where an entity is called as a clause, a clause is found in front of where the sources end. -/
theorem Parts.ofText_early (h : Parts q select k sources condition groups orders) (hq : Regular q)
    (hc : Cut Token.extends a c d (select ++ k :: sources) condition (groups ++ orders))
    (hn : ¬ ∀ r ∈ q.roots, Distinct r) : ∃ n < a.length,
      (Clauses.ofText (a ++ (c ++ d))).condition = some n ∨
      (Clauses.ofText (a ++ (c ++ d))).tail = some n := by
  obtain hdistinct | ⟨vs, entity, rest, rfl, hentity, -, hidle⟩ :=
    h.sources.misread fun s hs => hc.head.inWord_of_word (by simp [hs])
  · exact (hn hdistinct).elim
  have hhead := hc.head
  rw [← List.cons_append, ← List.append_assoc] at hhead
  obtain ⟨e, f, rfl, he, hf, hfs⟩ := hhead.split
  have hne : f ≠ [] := by
    rintro rfl
    cases hf.eq_nil
  have hrest : Lexes Token.extends [] (f ++ (c ++ d))
      (.word entity :: (rest ++ (condition ++ (groups ++ orders)))) :=
    .append (by simpa using hf) hc.behind
  have hstarts : ∀ x ∈ (f ++ (c ++ d)).head?, isBlank x = false := by
    rw [List.head?_append_of_ne_nil _ hne]
    exact hfs
  obtain ⟨hwhere, hhaving⟩ :=
    h.ofText_misread hq (List.subset_append_left _ _) hidle he hrest hstarts
  have hlt : e.length < (e ++ f).length := by
    rw [List.length_append]
    exact Nat.lt_add_of_pos_right (List.length_pos_iff.2 hne)
  rw [List.append_assoc e f]
  refine ⟨e.length, hlt, hentity.imp (fun hw => (hwhere hw).2) fun hh => ?_⟩
  obtain ⟨pos, hof⟩ := hhaving hh
  rw [hof]

/-- The keyword of a tail that is glued to a number is skipped, so the tail is found later or not at
all. -/
theorem Parts.ofText_late (h : Parts q select k sources condition groups orders) (hq : Regular q)
    (hdistinct : ∀ r ∈ q.roots, Distinct r)
    (hc : Cut Token.extends a c d (select ++ k :: sources) condition (groups ++ orders))
    (hne : d ≠ []) (hglued : ¬ Clean (c.getLast?.or a.getLast?)) :
    ∀ n ∈ (Clauses.ofText (a ++ (c ++ d))).tail, a.length + c.length < n := by
  obtain hnil | ⟨g, gs, rest, word, htail, hg, -, hgs, hrest⟩ := h.tail_split
  · exact (hne (hc.tail_nil_iff.2 hnil)).elim
  have hlexes := hc.tail
  rw [htail] at hlexes
  obtain ⟨d, e, rfl, hd, he, hes⟩ := hlexes.split
  rw [List.append_nil] at hd
  obtain ⟨hdne, -, pos, hof⟩ := h.ofText_glued hq hdistinct hc hglued hd he hes hg hgs hrest
  intro n hn
  rw [hof] at hn
  dsimp only at hn
  split_ifs at hn
  · cases hn
  · obtain rfl := Option.some.inj hn
    rw [List.length_append, ← Nat.add_assoc]
    exact Nat.lt_add_of_pos_right (List.length_pos_iff.2 hdne)

/-- The scan finds the clauses that the parser reads exactly when no entity is called as a clause
and the tail is not glued to the condition. -/
theorem Parts.ofText_eq_iff (h : Parts q select k sources condition groups orders) (hq : Regular q)
    (ha : Lexes Token.extends (b ++ (c ++ d)) a select)
    (hb : Lexes Token.extends (c ++ d) b (k :: sources)) (hbs : ∀ x ∈ b.head?, isBlank x = false)
    (hc : Cut Token.extends (a ++ b) c d (select ++ k :: sources) condition (groups ++ orders)) :
    Clauses.ofText ((a ++ b) ++ (c ++ d)) =
        { source := some a.length
          condition := if c = [] then none else some (a ++ b).length
          tail := if d = [] then none else some ((a ++ b).length + c.length) } ↔
      (∀ r ∈ q.roots, Distinct r) ∧ (d ≠ [] → Clean (c.getLast?.or (a ++ b).getLast?)) := by
  constructor
  · intro heq
    have hdistinct : ∀ r ∈ q.roots, Distinct r := by
      by_contra hn
      obtain ⟨n, hlt, hfound⟩ := h.ofText_early hq hc hn
      rw [heq] at hfound
      dsimp only at hfound
      rcases hfound with hcondition | htail
      · split_ifs at hcondition
        exact hlt.ne (Option.some.inj hcondition).symm
      · split_ifs at htail
        have := Option.some.inj htail
        omega
    refine ⟨hdistinct, fun hne => ?_⟩
    by_contra hglued
    have hlate := h.ofText_late hq hdistinct hc hne hglued
    rw [heq] at hlate
    exact Nat.lt_irrefl _ (hlate _ (if_neg hne))
  · rintro ⟨hdistinct, hclean⟩
    obtain ⟨pos, hof⟩ := h.ofText hq hdistinct hc hclean
    have hsource := h.source_ofText hq ha hb hbs
    rw [hof] at hsource
    rw [hof, ← hsource]

end

end QueryText

open QueryText Text Evaluation

/-- For the text of a query that a session accepts, the scan finds the keyword of the sources where
the parser reads it, and the conditions and tails exactly when no source has an entity that is called
as a clause and the tail is glued to no number. -/
theorem clauses_eq_parsed_iff {s : Session} (ha : s.answers = none) {text : String}
    {p : PreparedQuery} (hp : s.prepareText text = .ok p) :
    ∃ q parsed, p.plan = .stored q (some text) q.parameters [] ∧
      Clauses.ofParser text.toList = .ok parsed ∧
      (Clauses.ofText text.toList).source = parsed.source ∧
      (Clauses.ofText text.toList = parsed ↔ (∀ r ∈ q.roots, Distinct r) ∧
        ∀ t ∈ parsed.tail, ∀ c ∈ (text.toList.take t).getLast?, inWord c = false) := by
  obtain ⟨ts, q, hscan, hs, hvalid, rfl⟩ := (Session.prepareText_eq_ok_iff ha).1 hp
  have hq := hs.regular hvalid
  obtain ⟨hparts⟩ := hs
  rename_i select sources condition groups orders k
  have hlexes := scan_eq_ok_iff.1 hscan
  have htokens : select ++ k :: (sources ++ (condition ++ (groups ++ orders))) =
      (select ++ k :: sources) ++ (condition ++ (groups ++ orders)) := by simp
  rw [htokens] at hlexes
  obtain ⟨head, c, d, htext, hcut⟩ := hlexes.cut
  obtain ⟨a, b, rfl, hla, hlb, hbs⟩ := hcut.head.split
  rw [htext]
  refine ⟨q, _, rfl, hparts.ofParser hla hlb hbs hcut, hparts.source_ofText hq hla hlb hbs, ?_⟩
  rw [hparts.ofText_eq_iff hq hla hlb hbs hcut]
  refine and_congr_right fun _ => ?_
  by_cases hd : d = []
  · simp [hd]
  · have htake : ((a ++ b) ++ (c ++ d)).take ((a ++ b).length + c.length) = (a ++ b) ++ c := by
      rw [← List.append_assoc, ← List.length_append, List.take_left]
    simp only [hd, if_false, Option.mem_some_iff, forall_eq', htake, not_false_eq_true, ne_eq,
      forall_const]
    exact hparts.clean_tail_iff hcut hd

def endsWithNumber : Query where
  result := .entity
  roots := [⟨"E", "e"⟩]
  restriction := some (.comparison .eq (.path ⟨"e", some "x"⟩) (.literal (.integer 5)))
  orders := [⟨.path ⟨"e", some "x"⟩, .asc⟩]

theorem parts_endsWithNumber : Parts endsWithNumber [] (.word "from") [.word "E", .word "e"]
    [.word "where", .word "e.x", .symbol (.comparison .eq), .number (.integer 5)] []
    [.word "order", .word "by", .word "e.x"] := by
  have hx : Negation [.word "e.x", .symbol (.comparison .eq), .number (.integer 5)] _ :=
    .relation (.comparison (.name (by cbv)) .eq (.number _))
  have ho : Ordered [.word "e.x"] ⟨.path (pathOf "e.x"), .asc⟩ := .plain (.intro (by cbv))
  exact ⟨.absent, isKeyword_reserved (by decide), .one (.intro .absent (by cbv) (by cbv) (by cbv)),
    List.nodup_singleton _, .present (isKeyword_reserved (by decide)) (.one (.one hx)), .absent,
    .present (isKeyword_reserved (by decide)) (isKeyword_reserved (by decide)) (.one ho), rfl⟩

/-- With a blank in front of the order, the scan agrees with the parser. -/
theorem clauses_eq_parsed_iff_spaced :
    let s : Session := { store := { tables := [("E", [])] } }
    let text := "from E e where e.x = 5 order by e.x"
    ∃ p, s.prepareText text = .ok p ∧
      Clauses.ofParser text.toList = .ok ⟨some 0, some 9, some 23⟩ ∧
      (∀ r ∈ endsWithNumber.roots, Distinct r) ∧
      Clauses.ofText text.toList = ⟨some 0, some 9, some 23⟩ := by
  intro s text
  have hplaced : scanPlaced 0 text.toList = .ok [(0, .word "from"), (5, .word "E"),
      (7, .word "e"), (9, .word "where"), (15, .word "e.x"), (19, .symbol (.comparison .eq)),
      (21, .number (.integer 5)), (23, .word "order"), (29, .word "by"), (32, .word "e.x")] := by cbv
  have hscan := scanPlaced_tokens text.toList 0
  rw [hplaced] at hscan
  have hparser : Clauses.ofParser text.toList = .ok ⟨some 0, some 9, some 23⟩ :=
    parts_endsWithNumber.ofParser_of_placed hplaced rfl
  have hp := (Session.prepareText_eq_ok_iff (s := s) rfl).2
    ⟨_, _, hscan.symm, .intro parts_endsWithNumber, validate_eq_ok_iff.1 rfl, rfl⟩
  have hdistinct : ∀ r ∈ endsWithNumber.roots, Distinct r := by
    intro r hr
    obtain rfl := List.mem_singleton.1 hr
    exact ⟨by decide, by decide⟩
  obtain ⟨q, parsed, hplan, hparsed, -, hiff⟩ := clauses_eq_parsed_iff rfl hp
  obtain ⟨rfl, -⟩ := Plan.stored.inj hplan
  obtain rfl := Except.ok.inj (hparsed.symm.trans hparser)
  refine ⟨_, hp, hparser, hdistinct, hiff.2 ⟨hdistinct, fun t ht c hc => ?_⟩⟩
  have hlast : (text.toList.take 23).getLast? = some ' ' := by decide +kernel
  obtain rfl := Option.some.inj ht
  rw [hlast] at hc
  obtain rfl := Option.some.inj hc
  decide

/-- A tail that is glued to a number is not found, and an entity that is called as a clause is found
for that clause. -/
theorem clauses_misread :
    let s : Session := { store := { tables := [("E", []), ("where", [])] } }
    let glued := "from E e where e.x = 5order by e.x"
    let named := "from where w"
    (∃ p, s.prepareText glued = .ok p) ∧
      Clauses.ofParser glued.toList = .ok ⟨some 0, some 9, some 22⟩ ∧
      Clauses.ofText glued.toList = ⟨some 0, some 9, none⟩ ∧
      (∃ p, s.prepareText named = .ok p) ∧
      Clauses.ofParser named.toList = .ok ⟨some 0, none, none⟩ ∧
      Clauses.ofText named.toList = ⟨some 0, some 5, none⟩ := by
  intro s glued named
  have hplaced : scanPlaced 0 glued.toList = .ok [(0, .word "from"), (5, .word "E"),
      (7, .word "e"), (9, .word "where"), (15, .word "e.x"), (19, .symbol (.comparison .eq)),
      (21, .number (.integer 5)), (22, .word "order"), (28, .word "by"), (31, .word "e.x")] := by cbv
  have hscan := scanPlaced_tokens glued.toList 0
  rw [hplaced] at hscan
  have hp := (Session.prepareText_eq_ok_iff (s := s) rfl).2
    ⟨_, _, hscan.symm, .intro parts_endsWithNumber, validate_eq_ok_iff.1 rfl, rfl⟩
  have hnamed : Parts { result := .entity, roots := [⟨"where", "w"⟩] } [] (.word "from")
      [.word "where", .word "w"] [] [] [] :=
    ⟨.absent, isKeyword_reserved (by decide), .one (.intro .absent (by cbv) (by cbv) (by cbv)),
      List.nodup_singleton _, .absent, .absent, .absent, rfl⟩
  have hplaced' : scanPlaced 0 named.toList =
      .ok [(0, .word "from"), (5, .word "where"), (11, .word "w")] := by cbv
  have hscan' := scanPlaced_tokens named.toList 0
  rw [hplaced'] at hscan'
  have hp' := (Session.prepareText_eq_ok_iff (s := s) rfl).2
    ⟨_, _, hscan'.symm, .intro hnamed, validate_eq_ok_iff.1 rfl, rfl⟩
  exact ⟨⟨_, hp⟩, parts_endsWithNumber.ofParser_of_placed hplaced rfl, by decide +kernel, ⟨_, hp'⟩,
    hnamed.ofParser_of_placed hplaced' rfl, by decide +kernel⟩

end EntityQuery
