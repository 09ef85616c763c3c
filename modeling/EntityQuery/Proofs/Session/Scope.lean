import EntityQuery.Proofs.Criteria.Aliases
import EntityQuery.Proofs.Session.Prepared
import EntityQuery.Proofs.Session.Text
/-! What an alias means in a combination of rows: the row of the first source that has it. The others
with the same alias are out of reach, so each source finds its own row exactly when no alias is
repeated. The text of a query cannot repeat one; the calls that build a query can. -/
namespace EntityQuery
open Criteria

namespace Evaluation

/-- What is found under the alias of a source is `v`: by its paths, and as the row that is answered
or counted. -/
structure Reads (c : Combination) (r : Root) (v : Value) : Prop where
  path : ∀ b, resolve b c (.path r.path) = .ok v
  nested : ∀ b attr, resolve b c (.path (r.get attr)) = .ok (attributeValue v attr)
  answered : answer c (some r.aliasName) = .ok v
  counted : row c r.aliasName = .ok v

def ReadsFirst (roots : List Root) (c : Combination) : Prop :=
  ∀ r ∈ roots, ∃ v,
    (c.map (·.2))[roots.findIdx (·.aliasName = r.aliasName)]? = some v ∧ Reads c r v

def ReadsOwn (roots : List Root) (c : Combination) : Prop :=
  ∀ (i : Nat) r, roots[i]? = some r → ∃ v, (c.map (·.2))[i]? = some v ∧ Reads c r v

section
variable {c : Combination} {r : Root} {roots : List Root} {v w : Value}

theorem Reads.of_row (h : row c r.aliasName = .ok v) : Reads c r v where
  path b := by
    rw [Root.path, resolve, h]
    rfl
  nested b attr := by
    rw [Root.get, Root.path, Path.get, resolve, h]
    rfl
  answered := h
  counted := h

theorem Reads.unique (h : Reads c r v) {r' : Root} (h' : Reads c r' w)
    (halias : r.aliasName = r'.aliasName) : v = w := by
  have hrow := h.counted
  rw [halias, h'.counted] at hrow
  exact (Except.ok.inj hrow).symm

theorem readsFirst_of_sources (h : c.map (·.1) = roots) : ReadsFirst roots c := by
  intro r hr
  rw [← h]
  obtain ⟨x, hx, rfl⟩ := List.mem_map.1 (h ▸ hr)
  have hlt := List.findIdx_lt_length_of_exists (p := fun y : Root × Value =>
    decide (y.1.aliasName = x.1.aliasName)) ⟨x, hx, by simp⟩
  refine ⟨(c.get ⟨_, hlt⟩).2, ?_, .of_row ?_⟩
  · rw [List.findIdx_map, List.getElem?_map]
    exact congrArg _ (List.getElem?_eq_getElem hlt)
  · rw [row, List.find?_eq_getElem?_findIdx, List.getElem?_eq_getElem hlt]
    rfl

theorem findIdx_of_nodup (h : (roots.map (·.aliasName)).Nodup) {i : Nat} (hi : roots[i]? = some r) :
    roots.findIdx (·.aliasName = r.aliasName) = i := by
  obtain ⟨hlt, rfl⟩ := List.getElem?_eq_some_iff.1 hi
  refine (List.findIdx_eq hlt).2 ⟨by simp, fun j hj => ?_⟩
  have hne := List.pairwise_iff_getElem.1 h j i (by simpa using hj.trans hlt) (by simpa using hlt) hj
  simpa using hne

def numbered (roots : List Root) : Combination := roots.zipIdx.map fun r => (r.1, .integer r.2)

theorem sources_numbered (roots : List Root) : (numbered roots).map (·.1) = roots := by
  simp [numbered, Function.comp_def]

theorem getElem?_numbered {i : Nat} (hi : i < roots.length) :
    ((numbered roots).map (·.2))[i]? = some (.integer i) := by
  simp [numbered, hi]

theorem nodup_iff_readsOwn : (roots.map (·.aliasName)).Nodup ↔
    ∀ c : Combination, c.map (·.1) = roots → ReadsOwn roots c := by
  constructor
  · intro h c hc i r hi
    obtain ⟨v, hv, hreads⟩ := readsFirst_of_sources hc r (List.mem_of_getElem? hi)
    rw [findIdx_of_nodup h hi] at hv
    exact ⟨v, hv, hreads⟩
  · intro h
    have hown := h _ (sources_numbered roots)
    refine List.pairwise_iff_getElem.2 fun i j hi hj hij halias => ?_
    rw [List.length_map] at hi hj
    rw [List.getElem_map, List.getElem_map] at halias
    -- under one alias the numbers of both sources would be read
    obtain ⟨v, hv, hreads⟩ := hown i _ (List.getElem?_eq_getElem hi)
    obtain ⟨w, hw, hreads'⟩ := hown j _ (List.getElem?_eq_getElem hj)
    obtain rfl := hreads.unique hreads' halias
    rw [getElem?_numbered hi] at hv
    rw [getElem?_numbered hj, ← hv] at hw
    injection hw with hw
    injection hw with hw
    injection hw with hw
    omega

end

end Evaluation

open Evaluation

/-- The sources of a query that is built have different aliases exactly when each call that names an
alias names a free one, and exactly then each source finds its own row in all combinations. A session
runs the query in any case, and each source finds the row of the first one with its alias. The sources
of a query that is read from text have different aliases. -/
theorem aliases_nodup_iff (result : ResultKind) (steps : List Step) :
    let q := Query.built result steps
    (q.aliases.Nodup ↔ ∀ before entity aliasName after,
      steps = before ++ .sourceAs entity aliasName :: after →
        (Query.built result before).hasAlias aliasName = false) ∧
    (q.aliases.Nodup ↔ ∀ c : Combination, c.map (·.1) = q.roots → ReadsOwn q.roots c) ∧
    (∀ (s : Session) (p : PreparedQuery), s.answers = none → s.prepare q = .ok p →
      p.plan = .stored q none [] [] ∧
      ∃ all, combinations s.store.tables q.roots = .ok all ∧ ∀ c ∈ all,
        ReadsFirst q.roots c ∧ (q.aliases.Nodup → ReadsOwn q.roots c)) ∧
    ∀ (s : Session) (text : String) (p : PreparedQuery), s.answers = none →
      s.prepareText text = .ok p → ∃ q', p.plan = .stored q' (some text) q'.parameters [] ∧
        q'.aliases.Nodup ∧ ∃ all, combinations s.store.tables q'.roots = .ok all ∧
          ∀ c ∈ all, ReadsOwn q'.roots c := by
  intro q
  have hown : q.aliases.Nodup ↔ ∀ c : Combination, c.map (·.1) = q.roots → ReadsOwn q.roots c :=
    nodup_iff_readsOwn
  refine ⟨Query.nodup_built_iff result steps, hown, fun s p ha hp => ?_, fun s text p ha hp => ?_⟩
  · rw [Session.prepare_eq ha] at hp
    obtain ⟨u, hvalid, rfl⟩ := map_eq_ok_iff.1 hp
    obtain ⟨all, hall⟩ := exists_combinations (validate_eq_ok_iff.1 hvalid).entities
    refine ⟨rfl, all, hall, fun c hc => ?_⟩
    have hsources := sources_of_mem_combinations hall c hc
    exact ⟨readsFirst_of_sources hsources, fun h => hown.1 h c hsources⟩
  · obtain ⟨ts, q', -, hstates, hvalid, rfl⟩ := (Session.prepareText_eq_ok_iff ha).1 hp
    obtain ⟨hparts⟩ := hstates
    obtain ⟨all, hall⟩ := exists_combinations hvalid.entities
    refine ⟨q', rfl, hparts.nodup, all, hall, fun c hc => ?_⟩
    exact nodup_iff_readsOwn.1 hparts.nodup c (sources_of_mem_combinations hall c hc)

/-- A query over two entities whose sources are told apart, and a text over one of them. -/
theorem aliases_nodup_iff_joined :
    let q := Query.built .entity [.sourceAs "A" "x", .source "B", .select (.root "b")]
    let s : Session := { store := { tables := [("A", [.integer 1]), ("B", [.integer 2])] } }
    (∃ p, s.prepare q = .ok p ∧ p.plan = .stored q none [] []) ∧ q.aliases.Nodup ∧
      ReadsOwn q.roots [(⟨"A", "x"⟩, .integer 1), (⟨"B", "b"⟩, .integer 2)] ∧
      ∃ p q', s.prepareText "from A a" = .ok p ∧ p.plan = .stored q' (some "from A a") q'.parameters [] ∧
        q'.aliases.Nodup := by
  intro q s
  obtain ⟨-, hown, hprepare, htext⟩ :=
    aliases_nodup_iff .entity [.sourceAs "A" "x", .source "B", .select (.root "b")]
  have hnodup : q.aliases.Nodup := by decide
  have hroots : q.roots = [⟨"A", "x"⟩, ⟨"B", "b"⟩] := rfl
  have hparts : QueryText.Parts
      { result := .entity, roots := [⟨"A", "a"⟩] } [] (.word "from") [.word "A", .word "a"] [] [] [] :=
    ⟨.absent, by cbv, .one (.intro .absent (by cbv) (by cbv) (by cbv)), List.nodup_singleton _, .absent,
      .absent, .absent, rfl⟩
  have hscan : QueryText.scan "from A a".toList = .ok [.word "from", .word "A", .word "a"] := by cbv
  have haccepted := (Session.prepareText_eq_ok_iff (s := s) rfl).2
    ⟨_, _, hscan, .intro hparts, validate_eq_ok_iff.1 rfl, rfl⟩
  obtain ⟨q', hplan, hnodup', -⟩ := htext s "from A a" _ rfl haccepted
  exact ⟨⟨_, rfl, (hprepare s _ rfl rfl).1⟩, hnodup, hown.1 hnodup _ hroots.symm, _, q', haccepted,
    hplan, hnodup'⟩

/-- Two sources with one alias are accepted, and what is selected from the second is answered from
the first. -/
theorem aliases_repeated :
    let q := Query.built .entity [.sourceAs "A" "x", .sourceAs "B" "x", .select (.root "x")]
    let s : Session := { store := { tables := [("A", [.integer 1]), ("B", [.integer 2])] } }
    ¬ q.aliases.Nodup ∧ q.roots[1]? = some ⟨"B", "x"⟩ ∧
      ∃ p, s.prepare q = .ok p ∧ (p.rows s.store).1 = .ok [.integer 1] :=
  ⟨by decide, rfl, _, rfl, rfl⟩

end EntityQuery
