import EntityQuery.Proofs.Executor.Lookup
/-! The identifier of a row is read in two ways: as a member of the row, and along the path that a
look-up compares. To the first a dot is part of the attribute's name, to the second it is a step, so
they agree exactly when the name has no dot; and only then is every stored row counted by its own
identifier. -/
namespace EntityQuery
open Criteria Evaluation

namespace Evaluation

theorem segments_of_no_dot {cs : List Char} (h : '.' ∉ cs) : segments cs = [cs] := by
  induction cs with
  | nil => rfl
  | cons c rest ih =>
    rw [List.mem_cons, not_or] at h
    rw [segments, if_neg (Ne.symm h.1), ih h.2]

theorem exists_segments (cs : List Char) :
    ∃ first more, segments cs = first :: more ∧ '.' ∉ first := by
  induction cs with
  | nil => exact ⟨[], [], rfl, List.not_mem_nil⟩
  | cons c rest ih =>
    obtain ⟨first, more, hrest, hfirst⟩ := ih
    rw [segments, hrest]
    split
    · exact ⟨[], _, rfl, List.not_mem_nil⟩
    · rename_i hc
      refine ⟨c :: first, more, rfl, ?_⟩
      rw [List.mem_cons, not_or]
      exact ⟨Ne.symm hc, hfirst⟩

theorem attributeValue_of_no_dot {attr : String} (h : '.' ∉ attr.toList) (v : Value) :
    attributeValue v attr = (v.member? attr).getD .null := by
  unfold attributeValue
  rw [segments_of_no_dot h, List.map_singleton, String.ofList_toList, descend]
  cases v.member? attr <;> rfl

/-- No path leads to a member with a dot in its name. -/
theorem attributeValue_of_dot {attr : String} (h : '.' ∈ attr.toList) (v : Value) :
    attributeValue (.object [(attr, v)]) attr = .null := by
  obtain ⟨first, more, hsegments, hfirst⟩ := exists_segments attr.toList
  have hne : attr ≠ String.ofList first := by
    rintro rfl
    rw [String.toList_ofList] at h
    exact hfirst h
  unfold attributeValue
  rw [hsegments, List.map_cons, descend, Value.member?, Dictionary.get?, if_neg hne]
  rfl

end Evaluation

namespace Entity
variable {e : Entity}

theorem getD_idOf? (e : Entity) (v : Value) :
    (e.idOf? v).getD .null = (v.member? e.idAttribute).getD .null := by
  unfold idOf?
  cases v.member? e.idAttribute with
  | none => rfl
  | some w => cases w <;> rfl

theorem idOf?_eq_attributeValue (h : '.' ∉ e.idAttribute.toList) (v : Value) :
    (e.idOf? v).getD .null = attributeValue v e.idAttribute := by
  rw [getD_idOf?, attributeValue_of_no_dot h]

theorem isNull_of_idOf? {v id : Value} (h : e.idOf? v = some id) : id.isNull = false := by
  simpa using (Option.filter_eq_some_iff.1 h).2

theorem identifies_of_idOf? (h : '.' ∉ e.idAttribute.toList) {v id : Value}
    (hid : e.idOf? v = some id) : e.identifies id v = true := by
  have hvalue : attributeValue v e.idAttribute = id := by
    rw [← idOf?_eq_attributeValue h, hid, Option.getD_some]
  rw [identifies, hvalue, isNull_of_idOf? hid, Value.same_self]
  rfl

theorem idOf?_member {id : Value} (h : id.isNull = false) :
    e.idOf? (.object [(e.idAttribute, id)]) = some id := by
  rw [idOf?, Value.member?, Dictionary.get?, if_pos rfl, Option.filter_some, h]
  rfl

theorem idOf?_eq_attributeValue_iff :
    (∀ v, (e.idOf? v).getD .null = attributeValue v e.idAttribute) ↔
      '.' ∉ e.idAttribute.toList := by
  refine ⟨fun h hdot => ?_, idOf?_eq_attributeValue⟩
  have hmember := h (.object [(e.idAttribute, .bool true)])
  rw [idOf?_member rfl, attributeValue_of_dot hdot] at hmember
  cases hmember

end Entity

theorem ValueType.exists_accepts (t : ValueType) :
    ∃ v : Value, v.isNull = false ∧ t.accepts v = true := by
  cases t with
  | any | bool => exact ⟨.bool true, rfl, rfl⟩
  | integer | number => exact ⟨.integer 0, rfl, rfl⟩
  | string => exact ⟨.string "", rfl, rfl⟩

namespace Executor
variable {x : Executor} {o : ObservedSession} {v id : Value} {vs : List Value}

/-- A row among the stored rows of the entity, whose identifier the entity accepts; queries are
answered from the stored rows. -/
structure Identified (x : Executor) (o : ObservedSession) (v id : Value) : Prop where
  answers : o.session.answers = none
  failure : o.session.store.failure = none
  stored : ∃ vs, Dictionary.get? x.entity.type o.session.store.tables = some vs ∧ v ∈ vs ∧
    vs.length < 2 ^ 63
  identifier : x.entity.idOf? v = some id
  accepted : x.entity.idType.accepts id = true

theorem countByEntity_outcome (hanswers : o.session.answers = none)
    (hfailure : o.session.store.failure = none)
    (htable : Dictionary.get? x.entity.type o.session.store.tables = some vs)
    (hlength : vs.length < 2 ^ 63)
    (haug : ∀ a ∈ x.augmentors, ∀ mode, a.supports .criteria mode x.entity = false)
    (hid : x.entity.idOf? v = some id) (haccepts : x.entity.idType.accepts id = true)
    (mode : QueryMode) : (x.countByEntity v mode).outcome o =
      .ok (vs.filter (x.entity.identifies id)).length := by
  have hcount := (gives_countById hanswers hfailure htable haug id mode
    (fun _ => (List.length_filter_le _ vs).trans_lt hlength) o rfl).1
  rw [if_pos haccepts] at hcount
  rw [countByEntity, hid, Option.getD_some, hcount]

theorem Identified.one_le_count (h : x.Identified o v id)
    (haug : ∀ a ∈ x.augmentors, ∀ mode, a.supports .criteria mode x.entity = false)
    (hdot : '.' ∉ x.entity.idAttribute.toList) (mode : QueryMode) :
    ∃ n, (x.countByEntity v mode).outcome o = .ok n ∧ 1 ≤ n := by
  obtain ⟨vs, htable, hv, hlength⟩ := h.stored
  refine ⟨_, countByEntity_outcome h.answers h.failure htable hlength haug h.identifier h.accepted
    mode, ?_⟩
  have hmem : v ∈ vs.filter (x.entity.identifies id) :=
    List.mem_filter.2 ⟨hv, Entity.identifies_of_idOf? hdot h.identifier⟩
  exact_mod_cast List.length_pos_of_mem hmem

/-- With a dot in the attribute's name a row is stored that is not counted by its own identifier. -/
theorem exists_uncounted
    (haug : ∀ a ∈ x.augmentors, ∀ mode, a.supports .criteria mode x.entity = false)
    (hdot : '.' ∈ x.entity.idAttribute.toList) (mode : QueryMode) :
    ∃ o v id, x.Identified o v id ∧ (x.countByEntity v mode).outcome o = .ok 0 := by
  obtain ⟨id, hnull, haccepts⟩ := x.entity.idType.exists_accepts
  let v : Value := .object [(x.entity.idAttribute, id)]
  let o : ObservedSession := { session := { store := { tables := [(x.entity.type, [v])] } } }
  have htable : Dictionary.get? x.entity.type o.session.store.tables = some [v] := if_pos rfl
  have hid : x.entity.idOf? v = some id := Entity.idOf?_member hnull
  have hlength : [v].length < 2 ^ 63 := by simp
  have hnone : [v].filter (x.entity.identifies id) = [] := by
    rw [List.filter_singleton, Entity.identifies, attributeValue_of_dot hdot]
    rfl
  refine ⟨o, v, id, ⟨rfl, rfl, ⟨[v], htable, .head _, hlength⟩, hid, haccepts⟩, ?_⟩
  rw [countByEntity_outcome rfl rfl htable hlength haug hid haccepts mode, hnone]
  rfl

/-- What is read from every row as its identifier is what the path of a look-up leads to, and every
stored row that has one is counted by it, exactly when the name of the attribute has no dot. -/
theorem countByEntity_reads_path_iff (x : Executor) (mode : QueryMode)
    (haug : ∀ a ∈ x.augmentors, ∀ mode, a.supports .criteria mode x.entity = false) :
    ('.' ∉ x.entity.idAttribute.toList ↔
      ∀ (b : Bindings) (c : Combination) (root : Root) (v : Value),
        row c root.aliasName = .ok v →
          resolve b c (.path (root.get x.entity.idAttribute)) =
            .ok ((x.entity.idOf? v).getD .null)) ∧
      ('.' ∉ x.entity.idAttribute.toList ↔
        ∀ o v id, x.Identified o v id →
          ∃ n, (x.countByEntity v mode).outcome o = .ok n ∧ 1 ≤ n) := by
  refine ⟨⟨fun hdot b c root v hv => ?_, fun h => Entity.idOf?_eq_attributeValue_iff.1 fun v => ?_⟩,
    ⟨fun hdot o v id hv => ?_, fun h hdot => ?_⟩⟩
  · rw [resolve_get hv, Entity.idOf?_eq_attributeValue hdot]
  · let root : Root := ⟨"E", "e"⟩
    have hrow : row [(root, v)] root.aliasName = .ok v := rfl
    have hboth := (resolve_get hrow [] _).symm.trans (h [] _ root v hrow)
    injection hboth with hvalue
    exact hvalue.symm
  · exact hv.one_le_count haug hdot mode
  · obtain ⟨o, v, id, hv, hzero⟩ := exists_uncounted haug hdot mode
    obtain ⟨n, hn, hle⟩ := h o v id hv
    rw [hzero] at hn
    cases hn
    exact absurd hle (by decide)

/-- A row and its identifier are found, one under a name that is no path. -/
theorem countByEntity_reads_path_iff_flat :
    let x : Executor := { entity := .ofName "E" "id" .integer }
    let v : Value := .object [("id", .integer 1)]
    let o : ObservedSession := { session := { store := { tables := [("E", [.null, v])] } } }
    '.' ∉ x.entity.idAttribute.toList ∧ x.Identified o v (.integer 1) ∧
      ∃ n, (x.countByEntity v .exists).outcome o = .ok n ∧ 1 ≤ n := by
  intro x v o
  have hdot : '.' ∉ x.entity.idAttribute.toList := by decide
  have hv : x.Identified o v (.integer 1) :=
    ⟨rfl, rfl, ⟨_, rfl, .tail _ (.head _), by simp⟩, rfl, rfl⟩
  exact ⟨hdot, hv, (countByEntity_reads_path_iff x .exists nofun).2.1 hdot o v _ hv⟩

/-- Under a dotted name neither row is counted by itself: the one that the look-up finds has no such
member, and the other has it on no path. -/
theorem countByEntity_of_dotted :
    let x : Executor := { entity := .ofName "E" "key.id" .integer }
    let nested : Value := .object [("key", .object [("id", .integer 1)])]
    let flat : Value := .object [("key.id", .integer 2)]
    let o : ObservedSession := { session := { store := { tables := [("E", [nested, flat])] } } }
    attributeValue nested "key.id" = .integer 1 ∧ x.entity.idOf? nested = none ∧
      (x.countById (.integer 1) .count).outcome o = .ok 1 ∧
      (x.countByEntity nested .count).outcome o = .ok 0 ∧
      x.Identified o flat (.integer 2) ∧ (x.countByEntity flat .count).outcome o = .ok 0 := by
  intro x nested flat o
  have hcounted (id : Value) (hid : x.entity.idType.accepts id = true) :
      (x.countById id .count).outcome o =
        .ok ([nested, flat].filter (x.entity.identifies id)).length := by
    have hcount := (gives_countById (x := x) rfl rfl rfl nofun id .count
      (fun _ => (List.length_filter_le _ [nested, flat]).trans_lt (by simp)) o rfl).1
    rwa [if_pos hid] at hcount
  have hone : ([nested, flat].filter (x.entity.identifies (.integer 1))).length = 1 := by decide
  have htwo : ([nested, flat].filter (x.entity.identifies (.integer 2))).length = 0 := by decide
  have hnull : ([nested, flat].filter (x.entity.identifies .null)).length = 0 := by
    simp [Entity.identifies_null]
  refine ⟨by cbv, rfl, ?_, ?_, ⟨rfl, rfl, ⟨_, rfl, .tail _ (.head _), by simp⟩, rfl, rfl⟩, ?_⟩
  · rw [hcounted _ rfl, hone]
    rfl
  · refine (hcounted .null rfl).trans ?_
    rw [hnull]
    rfl
  · refine (hcounted (.integer 2) rfl).trans ?_
    rw [htwo]
    rfl

end Executor

end EntityQuery
