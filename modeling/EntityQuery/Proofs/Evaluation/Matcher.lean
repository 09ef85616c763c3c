import EntityQuery.Evaluation.Matcher
import EntityQuery.Proofs.Evaluation.Pattern
import EntityQuery.Proofs.Evaluation.Tuples
/-! The patterns that an execution has compiled do not change its answers: each is kept under its own
text, so it answers as if it were compiled again. -/
namespace EntityQuery.Evaluation
open Criteria

def Compiled (ms : Matchers) : Prop :=
  ∀ pattern m, Dictionary.get? pattern ms = some m → Matcher.ofPattern pattern = .ok m

theorem compiled_nil : Compiled [] := nofun

theorem Compiled.insert {ms : Matchers} (h : Compiled ms) {pattern : String} {m : Matcher}
    (hm : Matcher.ofPattern pattern = .ok m) : Compiled (Dictionary.insert pattern m ms) := by
  intro other m' hother
  by_cases heq : other = pattern
  · rw [heq, Dictionary.get?_insert_self] at hother
    cases hother
    rwa [heq]
  · rw [Dictionary.get?_insert_of_ne heq] at hother
    exact h other m' hother

section
variable {α β : Type} {x : Scoped α} {y : Except SessionError α}

theorem Scoped.run_bind (x : Scoped α) (f : α → Scoped β) (ms : Matchers) :
    (x >>= f).run.run ms = match x.run.run ms with
      | (.ok a, ms') => (f a).run.run ms'
      | (.error e, ms') => (.error e, ms') := by
  rw [ExceptT.run_bind, StateT.run_bind]
  cases x.run.run ms with
  | mk r ms' => cases r <;> rfl

/-- The step has the outcome `y` whichever patterns have been compiled before it. -/
def Agrees (x : Scoped α) (y : Except SessionError α) : Prop :=
  ∀ ms, Compiled ms → ∃ ms', Compiled ms' ∧ x.run.run ms = (y, ms')

namespace Agrees

theorem lift (y : Except SessionError α) : Agrees (liftM y) y := fun ms hms => ⟨ms, hms, rfl⟩

theorem ok (a : α) : Agrees (pure a) (.ok a) := lift (.ok a)

theorem bind {f : α → Scoped β} {g : α → Except SessionError β} (h : Agrees x y)
    (hf : ∀ a, Agrees (f a) (g a)) : Agrees (x >>= f) (y >>= g) := by
  intro ms hms
  obtain ⟨ms', hms', hx⟩ := h ms hms
  rw [Scoped.run_bind, hx]
  cases y with
  | error e => exact ⟨ms', hms', rfl⟩
  | ok a => exact hf a ms' hms'

theorem alone (h : Agrees x y) : x.alone = y := by
  obtain ⟨ms, -, hx⟩ := h [] compiled_nil
  rw [Scoped.alone, hx]

end Agrees

end

section
variable {b : Bindings} {c : Combination}

theorem likeValue_string (text pattern : String) : likeValue (.string text) (.string pattern) =
    (Matcher.ofPattern pattern).map fun m => m.isMatch text := by
  rw [likeValue, Matcher.ofPattern]
  split <;> rfl

theorem Scoped.run_get (ms : Matchers) : (get : Scoped Matchers).run.run ms = (.ok ms, ms) := rfl

theorem agrees_likeIn (text pattern : String) :
    Agrees (likeIn text pattern) (likeValue (.string text) (.string pattern)) := by
  intro ms hms
  rw [likeIn, Scoped.run_bind, Scoped.run_get, likeValue_string]
  dsimp only
  cases hget : Dictionary.get? pattern ms with
  | some m => exact ⟨ms, hms, by rw [hms pattern m hget]; rfl⟩
  | none =>
    cases hm : Matcher.ofPattern pattern with
    | error e => exact ⟨ms, hms, rfl⟩
    | ok m => exact ⟨_, hms.insert hm, rfl⟩

theorem agrees_likeValueIn (text pattern : Value) :
    Agrees (likeValueIn text pattern) (likeValue text pattern) := by
  unfold likeValueIn
  split
  · exact agrees_likeIn _ _
  · rename_i h
    rw [likeValue]
    · exact .ok false
    · exact h

mutual

theorem agrees_satisfiesIn (p : Predicate) :
    Agrees (satisfiesIn b c p) (satisfies b c p) := by
  match p with
  | .comparison op l r =>
    rw [satisfiesIn, satisfies]
    exact .bind (.lift _) fun v => .bind (.lift _) fun w => .ok _
  | .like e pattern =>
    rw [satisfiesIn, satisfies]
    exact .bind (.lift _) fun v => .bind (.lift _) fun w => agrees_likeValueIn v w
  | .isNull e | .isNotNull e =>
    rw [satisfiesIn, satisfies]
    exact .bind (.lift _) fun v => .ok _
  | .and items =>
    rw [satisfiesIn, satisfies]
    exact agrees_satisfiesAllIn items
  | .or items =>
    rw [satisfiesIn, satisfies]
    exact agrees_satisfiesAnyIn items
  | .not item =>
    rw [satisfiesIn, satisfies]
    exact (agrees_satisfiesIn item).bind fun x => .ok _

theorem agrees_satisfiesAllIn (ps : List Predicate) :
    Agrees (satisfiesAllIn b c ps) (satisfiesAll b c ps) := by
  match ps with
  | [] =>
    rw [satisfiesAllIn, satisfiesAll]
    exact .ok true
  | p :: rest =>
    rw [satisfiesAllIn, satisfiesAll]
    refine (agrees_satisfiesIn p).bind fun x => ?_
    cases x with
    | true => exact agrees_satisfiesAllIn rest
    | false => exact .ok false

theorem agrees_satisfiesAnyIn (ps : List Predicate) :
    Agrees (satisfiesAnyIn b c ps) (satisfiesAny b c ps) := by
  match ps with
  | [] =>
    rw [satisfiesAnyIn, satisfiesAny]
    exact .ok false
  | p :: rest =>
    rw [satisfiesAnyIn, satisfiesAny]
    refine (agrees_satisfiesIn p).bind fun x => ?_
    cases x with
    | true => exact .ok true
    | false => exact agrees_satisfiesAnyIn rest

end

theorem agrees_satisfyingIn (p : Predicate) (cs : List Combination) :
    Agrees (satisfyingIn b p cs) (satisfying b p cs) := by
  induction cs with
  | nil => exact .ok []
  | cons c rest ih =>
    rw [satisfyingIn, satisfying]
    exact (agrees_satisfiesIn p).bind fun keep => ih.bind fun kept => .ok _

theorem agrees_matchingIn (restriction : Option Predicate) (cs : List Combination) :
    Agrees (matchingIn b restriction cs) (matching b restriction cs) := by
  cases restriction with
  | none => exact .ok cs
  | some p => exact agrees_satisfyingIn p cs

theorem agrees_executeIn (tables : Tables) (q : Query) (b : Bindings) :
    Agrees (executeIn tables q b) (execute tables q b) := by
  unfold executeIn execute
  refine .bind (.lift _) fun _ => ?_
  cases q.parameters.find? fun p => (b.value? p.id).isNone with
  | some p => exact .lift (.error _)
  | none =>
    refine .bind (.lift _) fun all => .bind (agrees_matchingIn _ all) fun kept => ?_
    exact .bind (.lift _) fun cs => .lift _

theorem run_likesIn_cons (text pattern : String) (rest : List (String × String)) (ms : Matchers) :
    (likesIn ((text, pattern) :: rest)).run ms =
      let (answer, ms₁) := (likeIn text pattern).run.run ms
      let (answers, ms₂) := (likesIn rest).run ms₁
      (answer :: answers, ms₂) := rfl

theorem run_likesIn (calls : List (String × String)) {ms : Matchers} (hms : Compiled ms) :
    ∃ ms', Compiled ms' ∧ (likesIn calls).run ms =
      (calls.map fun call => likeValue (.string call.1) (.string call.2), ms') := by
  induction calls generalizing ms with
  | nil => exact ⟨ms, hms, rfl⟩
  | cons call rest ih =>
    obtain ⟨ms₁, hms₁, hcall⟩ := agrees_likeIn call.1 call.2 ms hms
    obtain ⟨ms₂, hms₂, hrest⟩ := ih hms₁
    refine ⟨ms₂, hms₂, ?_⟩
    rw [run_likesIn_cons, hcall]
    dsimp only
    rw [hrest, List.map_cons]

/-- A pattern that is not too large matches the texts that can be cut into pieces, one for each of
its characters, as the expression does that it is translated to. The patterns compiled before never
change an answer, neither that of a text nor that of a query. -/
theorem likeIn_iff_cut {pattern : String} (hfits : patternBytes pattern.toList ≤ patternBytesMax)
    (text : String) (calls : List (String × String)) (tables : Tables) (q : Query) (b : Bindings) :
    (∃ x, likeValue (.string text) (.string pattern) = .ok x ∧
      (likeIn text pattern).alone = .ok x ∧ (x = true ↔ Cut pattern.toList text.toList) ∧
      (x = true ↔ (Regex.ofPattern pattern.toList).FoundIn text.toList)) ∧
      ((likesIn calls).run []).1 = calls.map (fun call => (likeIn call.1 call.2).alone) ∧
      (executeIn tables q b).alone = execute tables q b := by
  have hlike : likeValue (.string text) (.string pattern) =
      .ok (like text.toList pattern.toList) := by
    rw [likeValue, if_pos hfits]
  refine ⟨⟨_, hlike, ?_, like_iff_cut, ?_⟩, ?_, (agrees_executeIn tables q b).alone⟩
  · rw [(agrees_likeIn text pattern).alone, hlike]
  · rw [like_iff_cut, Regex.ofPattern_foundIn_iff]
  · obtain ⟨ms, -, hrun⟩ := run_likesIn calls compiled_nil
    rw [hrun]
    exact List.map_congr_left fun call _ => (agrees_likeIn call.1 call.2).alone.symm

/-- A bracket and a point stand for themselves, and a line break is a character. -/
theorem likeIn_iff_cut_escaped :
    let pattern := "(.%_"
    let q : Query := {
      result := .entity
      roots := [⟨"E", "e"⟩]
      restriction := some (.like (.path ⟨"e", none⟩) (.literal (.string pattern))) }
    let tables : Tables := [("E", [.string "(.x\n", .string "(xx\n"])]
    Cut pattern.toList "(.x\n".toList ∧ ¬ Cut pattern.toList "(xx\n".toList ∧
      ((likesIn [("(.x\n", pattern), ("(xx\n", pattern)]).run []).1 = [.ok true, .ok false] ∧
      (executeIn tables q []).alone = execute tables q [] := by
  intro pattern q tables
  have hfits : patternBytes pattern.toList ≤ patternBytesMax := by decide +kernel
  obtain ⟨⟨x, hx, -, hcut, -⟩, hcalls, hquery⟩ := likeIn_iff_cut hfits "(.x\n"
    [("(.x\n", pattern), ("(xx\n", pattern)] tables q []
  obtain ⟨⟨y, hy, -, hcut', -⟩, -, -⟩ := likeIn_iff_cut hfits "(xx\n" [] tables q []
  have hdot : likeValue (.string "(.x\n") (.string pattern) = .ok true := by decide +kernel
  have hother : likeValue (.string "(xx\n") (.string pattern) = .ok false := by decide +kernel
  cases hx.symm.trans hdot
  cases hy.symm.trans hother
  refine ⟨hcut.1 rfl, fun h => ?_, ?_, hquery⟩
  · cases hcut'.2 h
  · rw [hcalls]
    decide +kernel

end

end EntityQuery.Evaluation
