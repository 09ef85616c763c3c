import EntityQuery.Executor.Observed
import EntityQuery.Proofs.Session.Text
/-! Passages through augmentors. Those that support a context change it in their order up to the
first that fails, so a passage through two lists is one through the first and, if it comes out, one
through the second; the augmentors that are counted are those before the failure. -/
namespace EntityQuery
open Criteria

namespace Augmentation
variable {γ : Type}

def Passage.andThen (p : Passage γ) (next : γ → Passage γ) : Passage γ :=
  match p.outcome with
  | .ok c => ⟨p.applied ++ (next c).applied, (next c).outcome⟩
  | .error e => ⟨p.applied, .error e⟩

theorem Passage.outcome_andThen (p : Passage γ) (next : γ → Passage γ) :
    (p.andThen next).outcome = p.outcome >>= fun c => (next c).outcome := by
  unfold andThen
  cases p.outcome <;> rfl

theorem Passage.andThen_congr {p : Passage γ} {f g : γ → Passage γ}
    (h : ∀ c, p.outcome = .ok c → f c = g c) : p.andThen f = p.andThen g := by
  unfold andThen
  cases hp : p.outcome with
  | error e => rfl
  | ok c =>
    dsimp only
    rw [h c hp]

theorem thread_append (c : γ) (changes more : List (String × (γ → Except AugmentError γ))) :
    thread c (changes ++ more) = (thread c changes).andThen fun d => thread d more := by
  induction changes generalizing c with
  | nil => rfl
  | cons change rest ih =>
    obtain ⟨name, change⟩ := change
    rw [List.cons_append, thread, thread]
    cases change c with
    | error e => rfl
    | ok d =>
      dsimp only
      rw [ih d]
      unfold Passage.andThen
      cases (thread d rest).outcome <;> rfl

section
variable (change : Augmentor → γ → Except AugmentError γ)

def through (augmentors : List Augmentor) (c : γ) : Passage γ :=
  thread c (augmentors.map fun a => (a.name, change a))

theorem through_append (before after : List Augmentor) (c : γ) :
    through change (before ++ after) c =
      (through change before c).andThen (through change after) := by
  unfold through
  rw [List.map_append, thread_append]

theorem through_cons (a : Augmentor) (rest : List Augmentor) (c : γ) :
    through change (a :: rest) c = match change a c with
      | .error e => ⟨[], .error e⟩
      | .ok d => ⟨a.name :: (through change rest d).applied, (through change rest d).outcome⟩ := rfl

theorem outcome_through (augmentors : List Augmentor) (c : γ) :
    (through change augmentors c).outcome = augmentors.foldlM (fun d a => change a d) c := by
  induction augmentors generalizing c with
  | nil => rfl
  | cons a rest ih =>
    rw [through_cons, List.foldlM_cons]
    cases change a c with
    | error e => rfl
    | ok d => exact ih d

/-- The augmentors that are counted come first and all succeed; the one behind them, if there is
one, fails. -/
theorem applied_through (augmentors : List Augmentor) (c : γ) :
    ∃ done rest d, augmentors = done ++ rest ∧ done.foldlM (fun d a => change a d) c = .ok d ∧
      (through change augmentors c).applied = done.map (·.name) ∧
      ∀ a ∈ rest.head?, ∃ e, change a d = .error e := by
  induction augmentors generalizing c with
  | nil => exact ⟨[], [], c, rfl, rfl, rfl, by simp⟩
  | cons a rest ih =>
    rw [through_cons]
    cases ha : change a c with
    | error e => exact ⟨[], a :: rest, c, rfl, rfl, rfl, by simp [ha]⟩
    | ok d =>
      obtain ⟨done, more, d', rfl, hdone, happlied, hmore⟩ := ih d
      refine ⟨a :: done, more, d', rfl, ?_, by simp [happlied], hmore⟩
      rw [List.foldlM_cons, ha]
      exact hdone

theorem through_keeps {κ : Type} (key : γ → κ) {augmentors : List Augmentor} {c d : γ}
    (hkeeps : ∀ a ∈ augmentors, ∀ c d, change a c = .ok d → key d = key c)
    (h : (through change augmentors c).outcome = .ok d) : key d = key c := by
  induction augmentors generalizing c with
  | nil =>
    cases h
    rfl
  | cons a rest ih =>
    rw [through_cons] at h
    cases ha : change a c with
    | error e =>
      rw [ha] at h
      cases h
    | ok c' =>
      rw [ha] at h
      rw [ih (fun b hb => hkeeps b (.tail _ hb)) h, hkeeps a (.head _) c c' ha]

end

theorem supporting_append (before after : List Augmentor) (kind : ContextKind) (mode : QueryMode)
    (entity : Entity) : supporting (before ++ after) kind mode entity =
      supporting before kind mode entity ++ supporting after kind mode entity :=
  List.filter_append ..

theorem supporting_cons_of_unsupported {a : Augmentor} {kind : ContextKind} {mode : QueryMode}
    {entity : Entity} (h : a.supports kind mode entity = false) (rest : List Augmentor) :
    supporting (a :: rest) kind mode entity = supporting rest kind mode entity :=
  List.filter_cons_of_neg (by simp [h])

end Augmentation

theorem Metrics.noteAugmentations_add (m : Metrics) (n k : Nat) :
    m.noteAugmentations (n + k) = (m.noteAugmentations n).noteAugmentations k := by
  simp [noteAugmentations, UInt64.ofNat_add, add_assoc]

namespace ObservedSession
variable (o : ObservedSession) (kind : ContextKind) (mode : QueryMode) (names more : List String)

def logApplied (log : Log) (kind : ContextKind) (mode : QueryMode) (names : List String) : Log :=
  names.foldl (fun log name => log.write .trace Event.augmentationApplied.text
    [("augmentor", name), ("context", kind.text), ("mode", mode.text)]) log

theorem noteApplied_eq : o.noteApplied kind mode names =
    { o with
      metrics := o.metrics.noteAugmentations names.length
      log := logApplied o.log kind mode names } := by
  have hfold : names.foldl (fun o name => o.trace .augmentationApplied
      [("augmentor", name), ("context", kind.text), ("mode", mode.text)]) o =
        { o with log := logApplied o.log kind mode names } := by
    induction names generalizing o with
    | nil => rfl
    | cons name rest ih => exact ih _
  unfold noteApplied
  rw [hfold]

theorem noteApplied_append : o.noteApplied kind mode (names ++ more) =
    (o.noteApplied kind mode names).noteApplied kind mode more := by
  rw [noteApplied_eq, noteApplied_eq, noteApplied_eq, List.length_append,
    Metrics.noteAugmentations_add, logApplied, List.foldl_append]
  rfl

end ObservedSession

def Augmentor.KeepsCriteria (a : Augmentor) : Prop :=
  ∀ c d, a.onCriteria c = .ok d → d.mode = c.mode ∧ d.entity = c.entity

def Augmentor.KeepsText (a : Augmentor) (s : Session) : Prop :=
  ∀ c d, a.onText s c = .ok d → d.mode = c.mode ∧ d.entity = c.entity

namespace Augmentation

/-- The passage `run` of `c` through two lists of augmentors is an ordered fold of the changes that
those make which support the kind of context, the mode and the entity; it ends at the first failure,
and in `o` the augmentors before it are counted. -/
structure Ordered {γ : Type} (o : ObservedSession) (kind : ContextKind) (mode : QueryMode)
    (entity : Entity) (change : Augmentor → γ → Except AugmentError γ)
    (run : List Augmentor → γ → Passage γ) (before after : List Augmentor) (c : γ) : Prop where
  fold : (run before c).outcome =
    (supporting before kind mode entity).foldlM (fun d a => change a d) c
  append : (run (before ++ after) c).outcome =
    (run before c).outcome >>= fun d => (run after d).outcome
  observed : o.noteApplied kind mode (run (before ++ after) c).applied =
    match (run before c).outcome with
    | .ok d => (o.noteApplied kind mode (run before c).applied).noteApplied kind mode
      (run after d).applied
    | .error _ => o.noteApplied kind mode (run before c).applied
  unsupported : ∀ a : Augmentor, a.supports kind mode entity = false →
    run (before ++ a :: after) c = run (before ++ after) c
  unneeded : needed before kind mode entity = false → run before c = ⟨[], .ok c⟩
  counted : ∃ done rest d, supporting before kind mode entity = done ++ rest ∧
    done.foldlM (fun d a => change a d) c = .ok d ∧
    (∀ a ∈ rest.head?, ∃ e, change a d = .error e) ∧
    (o.noteApplied kind mode (run before c).applied).metrics =
      { o.metrics with
        augmentationsApplied := o.metrics.augmentationsApplied + UInt64.ofNat done.length }

theorem ordered_of_through {γ : Type} (o : ObservedSession) {kind : ContextKind} {mode : QueryMode}
    {entity : Entity} {change : Augmentor → γ → Except AugmentError γ}
    {run : List Augmentor → γ → Passage γ} {before : List Augmentor} (after : List Augmentor) {c : γ}
    (hrun : ∀ as, run as c = through change (supporting as kind mode entity) c)
    (hafter : ∀ d, (run before c).outcome = .ok d →
      run after d = through change (supporting after kind mode entity) d) :
    Ordered o kind mode entity change run before after c := by
  have happend : run (before ++ after) c = (run before c).andThen (run after) := by
    rw [Passage.andThen_congr hafter, hrun, hrun, supporting_append, through_append]
  refine ⟨?_, ?_, ?_, fun a ha => ?_, fun hneeded => ?_, ?_⟩
  · rw [hrun, outcome_through]
  · rw [happend, Passage.outcome_andThen]
  · rw [happend]
    unfold Passage.andThen
    cases (run before c).outcome with
    | error e => rfl
    | ok d => exact o.noteApplied_append kind mode _ _
  · rw [hrun, hrun, supporting_append, supporting_append, supporting_cons_of_unsupported ha]
  · have hnone : supporting before kind mode entity = [] := by
      simpa [needed] using hneeded
    rw [hrun, hnone]
    rfl
  · obtain ⟨done, rest, d, hsplit, hdone, happlied, hrest⟩ :=
      applied_through change (supporting before kind mode entity) c
    refine ⟨done, rest, d, hsplit, hdone, hrest, ?_⟩
    rw [hrun, happlied, ObservedSession.noteApplied_eq, List.length_map]
    rfl

/-- Passages of criteria queries and of texts that are about an entity are ordered folds, as long as
the augmentors in front keep mode and entity; a text that is about none comes out as it is. -/
theorem passages_ordered (before after : List Augmentor) (o : ObservedSession) :
    (∀ c : CriteriaContext, (∀ a ∈ before, a.KeepsCriteria) →
      Ordered o .criteria c.mode c.entity (·.onCriteria) onCriteria before after c) ∧
    (∀ (s : Session) (c : TextContext) (entity : Entity), c.entity = some entity →
      (∀ a ∈ before, a.KeepsText s) →
      Ordered o .string c.mode entity (·.onText s) (onText · s) before after c) ∧
    ∀ (s : Session) (c : TextContext), c.entity = none →
      onText before s c = ⟨[], .ok c⟩ ∧
      o.noteApplied .string c.mode (onText before s c).applied = o := by
  refine ⟨fun c hkeeps => ?_, fun s c entity hentity hkeeps => ?_, fun s c hentity => ?_⟩
  · refine ordered_of_through o after (fun as => rfl) fun d hd => ?_
    have hkey := through_keeps (·.onCriteria) (fun d => (d.mode, d.entity))
      (fun a ha c d h => Prod.ext_iff.2 (hkeeps a (List.mem_filter.1 ha).1 c d h)) hd
    obtain ⟨hmode, hentity⟩ := Prod.ext_iff.1 hkey
    dsimp only at hmode hentity
    rw [← hmode, ← hentity]
    rfl
  · have hrun : ∀ as d, d.entity = some entity →
        onText as s d = through (·.onText s) (supporting as .string d.mode entity) d := by
      intro as d hd
      unfold onText
      rw [hd]
      rfl
    refine ordered_of_through o after (fun as => hrun as c hentity) fun d hd => ?_
    rw [hrun before c hentity] at hd
    have hkey := through_keeps (·.onText s) (fun d => (d.mode, d.entity))
      (fun a ha c d h => Prod.ext_iff.2 (hkeeps a (List.mem_filter.1 ha).1 c d h)) hd
    obtain ⟨hmode, hsame⟩ := Prod.ext_iff.1 hkey
    dsimp only at hmode hsame
    rw [← hmode]
    exact hrun after d (hsame.trans hentity)
  · have hsame : onText before s c = ⟨[], .ok c⟩ := by
      unfold onText
      rw [hentity]
    rw [hsame]
    refine ⟨rfl, ?_⟩
    rw [ObservedSession.noteApplied_eq]
    simp [Metrics.noteAugmentations, ObservedSession.logApplied]

def markingDistinct : Augmentor where
  name := "distinct"
  supports kind mode _ := kind = .criteria && mode ≠ .find
  onCriteria c := .ok { c with query := c.query.setDistinct true }

def rejecting : Augmentor where
  name := "reject"
  supports _ _ entity := entity.name == "User"
  onCriteria _ := .error (.rejected "reject" "always")

def activeOnly : Augmentor where
  name := "active-only"
  supports kind _ _ := kind = .string
  onText s c := c.augment s "" "\x7balias\x7d.active = true" []

/-- One augmentor changes a count of users, the next rejects it; a text goes through one that has
nothing to reject it. -/
theorem passages_ordered_rejected :
    let user := Entity.ofName "User" "id" .integer
    let counting : CriteriaContext :=
      ⟨.count, (Query.addRoot { result := .long } "User").1, none, user⟩
    let finding : TextContext := ⟨.find, ⟨.fixed [], none, []⟩, some user⟩
    (∀ a ∈ [markingDistinct], a.KeepsCriteria) ∧
    Ordered {} .criteria .count user (·.onCriteria) onCriteria [markingDistinct] [rejecting]
      counting ∧
    (onCriteria [markingDistinct, rejecting] counting).outcome =
      .error (.rejected "reject" "always") ∧
    (∀ a ∈ [activeOnly], a.KeepsText {}) ∧
    Ordered {} .string .find user (·.onText {}) (onText · {}) [activeOnly] [markingDistinct]
      finding ∧
    onText [activeOnly] {} { finding with entity := none } =
      ⟨[], .ok { finding with entity := none }⟩ := by
  intro user counting finding
  have hcriteria : ∀ a ∈ [markingDistinct], a.KeepsCriteria := by
    intro a ha c d h
    obtain rfl := List.mem_singleton.1 ha
    cases h
    exact ⟨rfl, rfl⟩
  have htext : ∀ a ∈ [activeOnly], a.KeepsText {} := by
    intro a ha c d h
    obtain rfl := List.mem_singleton.1 ha
    obtain ⟨text, word, p, r, -, -, -, -, rfl⟩ := TextContext.augment_eq_ok_iff.1 h
    exact ⟨rfl, rfl⟩
  have hcounting := (passages_ordered [markingDistinct] [rejecting] {}).1 counting hcriteria
  have hfinding := (passages_ordered [activeOnly] [markingDistinct] {}).2.1 {} finding user rfl htext
  have hnone := (passages_ordered [activeOnly] [] {}).2.2 {} { finding with entity := none } rfl
  exact ⟨hcriteria, hcounting, hcounting.append, htext, hfinding, hnone.1⟩

end Augmentation

end EntityQuery
