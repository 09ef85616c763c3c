import Mathlib.Data.List.Nodup
import EntityQuery.Log
import EntityQuery.Proofs.Json.Quoted
/-! Log lines. Whatever texts a line is made of, it has no controls, and it is read back as an
object that has the event, the severity and the fields by key, and nothing else. -/
namespace EntityQuery.Log
open Json

/-- `sorted` are the fields in the order of their keys; those of one key keep their order. -/
structure ByKey (fields sorted : List (String × String)) : Prop where
  perm : sorted.Perm fields
  keys : sorted.Pairwise fun f g => f.1 ≤ g.1
  order : ∀ key, sorted.filter (·.1 = key) = fields.filter (·.1 = key)

section
variable {f : String × String} {fields sorted : List (String × String)}

theorem insertField_perm (f : String × String) (sorted : List (String × String)) :
    (insertField f sorted).Perm (f :: sorted) := by
  induction sorted with
  | nil => exact .refl _
  | cons g rest ih =>
    rw [insertField]
    split
    · exact .refl _
    · exact (ih.cons g).trans (.swap f g rest)

theorem insertField_keys (h : sorted.Pairwise fun f g => f.1 ≤ g.1) :
    (insertField f sorted).Pairwise fun f g => f.1 ≤ g.1 := by
  induction sorted with
  | nil => exact List.pairwise_singleton _ _
  | cons g rest ih =>
    obtain ⟨hg, hrest⟩ := List.pairwise_cons.1 h
    rw [insertField]
    split
    · rename_i hlt
      have hle := String.not_lt.1 (String.lt_asymm hlt)
      refine List.pairwise_cons.2 ⟨fun x hx => ?_, h⟩
      obtain rfl | hx := List.mem_cons.1 hx
      · exact hle
      · exact String.le_trans hle (hg x hx)
    · rename_i hlt
      refine List.pairwise_cons.2 ⟨fun x hx => ?_, ih hrest⟩
      obtain rfl | hx := List.mem_cons.1 ((insertField_perm f rest).mem_iff.1 hx)
      · exact String.not_lt.1 hlt
      · exact hg x hx

theorem insertField_order (h : sorted.Pairwise fun f g => f.1 ≤ g.1) (key : String) :
    (insertField f sorted).filter (·.1 = key) =
      sorted.filter (·.1 = key) ++ [f].filter (·.1 = key) := by
  induction sorted with
  | nil => rfl
  | cons g rest ih =>
    obtain ⟨hg, hrest⟩ := List.pairwise_cons.1 h
    rw [insertField]
    split
    · rename_i hlt
      by_cases hf : f.1 = key
      · -- the keys from here on are larger than that of the field
        have hnone : (g :: rest).filter (·.1 = key) = [] := by
          refine List.filter_eq_nil_iff.2 fun x hx he => ?_
          have hkey : x.1 = f.1 := (of_decide_eq_true he).trans hf.symm
          obtain rfl | hx := List.mem_cons.1 hx
          · exact String.lt_irrefl _ (hkey ▸ hlt)
          · exact (String.not_lt.2 (hg x hx)) (hkey ▸ hlt)
        rw [List.filter_cons_of_pos (by simpa using hf), hnone]
        simp [hf]
      · rw [List.filter_cons_of_neg (by simpa using hf)]
        simp [hf]
    · rw [List.filter_cons, ih hrest, List.filter_cons (x := g)]
      split <;> rfl

theorem ByKey.insert (h : ByKey fields sorted) (f : String × String) :
    ByKey (fields ++ [f]) (insertField f sorted) where
  perm := ((insertField_perm f sorted).trans (h.perm.cons f)).trans
    (List.perm_append_singleton f fields).symm
  keys := insertField_keys h.keys
  order key := by rw [insertField_order h.keys, h.order, List.filter_append]

theorem byKey_foldl (h : ByKey fields sorted) (more : List (String × String)) :
    ByKey (fields ++ more) (more.foldl (fun sorted f => insertField f sorted) sorted) := by
  induction more generalizing fields sorted with
  | nil => simpa using h
  | cons f more ih =>
    have hmore := ih (h.insert f)
    rwa [List.append_assoc, List.singleton_append] at hmore

theorem byKey_sortFields (fields : List (String × String)) : ByKey fields (sortFields fields) :=
  byKey_foldl ⟨.refl _, .nil, fun _ => rfl⟩ fields

/-- Where no key is repeated, the order in which the fields are given does not matter. -/
theorem sortFields_of_perm {fields' : List (String × String)} (h : fields'.Perm fields)
    (hkeys : (fields.map (·.1)).Nodup) : sortFields fields' = sortFields fields := by
  have hs := byKey_sortFields fields
  have hs' := byKey_sortFields fields'
  refine (hs'.perm.trans (h.trans hs.perm.symm)).eq_of_pairwise ?_ hs'.keys hs.keys
  intro f g hf hg hle hge
  exact List.inj_on_of_nodup_map hkeys ((hs'.perm.trans h).mem_iff.1 hf) (hs.perm.mem_iff.1 hg)
    (String.le_antisymm hle hge)

end

def entries (severity : Severity) (event : String) (fields : List (String × String)) :
    List (String × String) :=
  ("event", event) :: ("severity", severity.text) :: sortFields fields

section
variable (severity : Severity) (event : String) (fields : List (String × String))

theorem toList_line : (line severity event fields).toList = '\x7b' ::
    memberList ("event", event) (("severity", severity.text) :: sortFields fields) := by
  have hevent : quoted "event" = "\"event\"".toList := by decide
  have hname : quoted "severity" = "\"severity\"".toList := by decide
  have hseverity : quoted severity.text = '"' :: (severity.text.toList ++ ['"']) := by
    cases severity <;> rfl
  have hfields : (String.join ((sortFields fields).map fieldText)).toList =
      (sortFields fields).flatMap fun f => ',' :: member f := by
    rw [String.toList_join, List.flatMap_map]
    refine List.flatMap_congr fun f _ => ?_
    simp [fieldText, member, toList_quote]
  simp [line, memberList, member, hfields, hevent, hname, hseverity, toList_quote]

theorem ofText?_line : Tree.ofText? (line severity event fields).toList =
    some (.object ((entries severity event fields).map memberTree)) := by
  rw [toList_line, Tree.ofText?_memberList]
  rfl

/-- A line has no controls, so it is one line, and it is read as an object whose members are the event,
the severity and the fields by key, those of one key in their order. When no key is repeated the
order of the fields is of no account. -/
theorem line_reads_back :
    (∀ c ∈ (line severity event fields).toList, 32 ≤ c.toNat) ∧
    (∃ members sorted, Tree.ofText? (line severity event fields).toList = some (.object members) ∧
      (∀ depth, Tree.toMembers? depth members = some (("event", .string event) ::
        ("severity", .string severity.text) :: sorted.map fun f => (f.1, .string f.2))) ∧
      ByKey fields sorted) ∧
    ∀ fields' : List (String × String), fields'.Perm fields → (fields.map (·.1)).Nodup →
      line severity event fields' = line severity event fields := by
  refine ⟨?_, ?_, fun fields' hperm hkeys => ?_⟩
  · rw [toList_line]
    exact NoControls.cons (by decide) (noControls_memberList _ _)
  · exact ⟨_, sortFields fields, ofText?_line .., fun depth => Tree.toMembers?_memberTree depth _,
      byKey_sortFields fields⟩
  · rw [line, line, sortFields_of_perm hperm hkeys]

end

/-- A text with a quote and a line break is in one line with the fields that it is logged with. -/
theorem line_reads_back_query :
    let fields := [("query", "from E e where e.x = 'a\"b'\n"), ("entity", "E")]
    (fields.map (·.1)).Nodup ∧ '\n' ∉ (line .trace "QUERY_BUILT" fields).toList ∧
      line .trace "QUERY_BUILT" fields.reverse = line .trace "QUERY_BUILT" fields ∧
      ∃ members sorted,
        Tree.ofText? (line .trace "QUERY_BUILT" fields).toList = some (.object members) ∧
        Tree.toMembers? 1 members = some (("event", .string "QUERY_BUILT") ::
          ("severity", .string "TRACE") :: sorted.map fun f => (f.1, .string f.2)) ∧
        ByKey fields sorted := by
  intro fields
  obtain ⟨hcontrols, ⟨members, sorted, htree, hmembers, hkeys⟩, hperm⟩ :=
    line_reads_back .trace "QUERY_BUILT" fields
  have hnodup : (fields.map (·.1)).Nodup := by decide
  refine ⟨hnodup, fun h => ?_, hperm _ fields.reverse_perm hnodup,
    members, sorted, htree, hmembers 1, hkeys⟩
  exact absurd (hcontrols '\n' h) (by decide)

end EntityQuery.Log
