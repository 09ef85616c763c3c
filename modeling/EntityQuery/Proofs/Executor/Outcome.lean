import Mathlib
import EntityQuery.Executor.Run
/-! Operations that keep the session and whose outcome it decides alone. -/
namespace EntityQuery

namespace Run
variable {α β : Type}

def outcome (x : Run α) (o : ObservedSession) : Except QueryError α := (x.run.run o).1

def after (x : Run α) (o : ObservedSession) : ObservedSession := (x.run.run o).2

section
variable {x : Run α} {f : α → Run β} {o : ObservedSession}

theorem bind_of_ok {a : α} (h : x.outcome o = .ok a) :
    (x >>= f).outcome o = (f a).outcome (x.after o) ∧
      (x >>= f).after o = (f a).after (x.after o) := by
  unfold outcome after at *
  simp only [ExceptT.run_bind, StateT.run_bind]
  rw [show StateT.run (ExceptT.run x) o = (Except.ok a, (StateT.run (ExceptT.run x) o).2) from
    Prod.ext h rfl]
  exact ⟨rfl, rfl⟩

theorem bind_of_error {e : QueryError} (h : x.outcome o = .error e) :
    (x >>= f).outcome o = .error e ∧ (x >>= f).after o = x.after o := by
  unfold outcome after at *
  simp only [ExceptT.run_bind, StateT.run_bind]
  rw [show StateT.run (ExceptT.run x) o = (Except.error e, (StateT.run (ExceptT.run x) o).2) from
    Prod.ext h rfl]
  exact ⟨rfl, rfl⟩

theorem bind_congr {g : α → Run β} (h : ∀ a, x.outcome o = .ok a → f a = g a) :
    (x >>= f).outcome o = (x >>= g).outcome o ∧ (x >>= f).after o = (x >>= g).after o := by
  cases hx : x.outcome o with
  | ok a =>
    obtain ⟨houtcome, hafter⟩ := bind_of_ok (f := f) hx
    obtain ⟨houtcome', hafter'⟩ := bind_of_ok (f := g) hx
    rw [houtcome, hafter, houtcome', hafter', h a hx]
    exact ⟨rfl, rfl⟩
  | error e =>
    obtain ⟨houtcome, hafter⟩ := bind_of_error (f := f) hx
    obtain ⟨houtcome', hafter'⟩ := bind_of_error (f := g) hx
    rw [houtcome, hafter, houtcome', hafter']
    exact ⟨rfl, rfl⟩

end

theorem outcome_rows (q : PreparedQuery) (o : ObservedSession) :
    (Run.rows q).outcome o = (q.rows o.session.store).1.mapError .session := by
  show Run.outcome (Run.ofSession (q.rows o.session.store).1) _ = _
  cases (q.rows o.session.store).1 with
  | ok vs => rfl
  | error e => rfl

/-- In the session `s` the operation has the outcome `r`, whatever was counted and logged before,
and keeps the session. -/
def Gives (x : Run α) (s : Session) (r : Except QueryError α) : Prop :=
  ∀ o, o.session = s → x.outcome o = r ∧ (x.after o).session = s

namespace Gives
variable {s : Session} {x : Run α} {r : Except QueryError α}

theorem pure (a : α) : Gives (Pure.pure a) s (.ok a) := fun _ h => ⟨rfl, h⟩

theorem throw (e : QueryError) : Gives (MonadExcept.throw e : Run α) s (.error e) :=
  fun _ h => ⟨rfl, h⟩

theorem lift (r : Except QueryError α) : Gives (liftExcept r) s r := by
  cases r with
  | ok a => exact pure a
  | error e => exact throw e

theorem bind {f : α → Run β} {g : α → Except QueryError β} (h : Gives x s r)
    (hf : ∀ a, r = .ok a → Gives (f a) s (g a)) : Gives (x >>= f) s (r >>= g) := by
  intro o ho
  obtain ⟨hout, hafter⟩ := h o ho
  cases hr : r with
  | ok a =>
    rw [hr] at hout
    obtain ⟨houtcome, hstate⟩ := bind_of_ok (f := f) hout
    rw [houtcome, hstate]
    exact hf a hr _ hafter
  | error e =>
    rw [hr] at hout
    obtain ⟨houtcome, hstate⟩ := bind_of_error (f := f) hout
    exact ⟨houtcome, by rw [hstate, hafter]⟩

theorem bind_of_ok {f : α → Run β} {a : α} {t : Except QueryError β} (h : Gives x s (.ok a))
    (hf : Gives (f a) s t) : Gives (x >>= f) s t :=
  h.bind (g := fun _ => t) fun b hb => by
    cases hb
    exact hf

theorem map (h : Gives x s r) (f : α → β) : Gives (do return f (← x)) s (r.map f) := by
  have hmap := h.bind (g := fun a => .ok (f a)) fun a _ => pure (f a)
  cases r with
  | error e => exact hmap
  | ok a => exact hmap

theorem after_note {y : Run Unit} (h : Gives y s (.ok ())) (hx : Gives x s r) :
    Gives (do y; x) s r := h.bind fun _ _ => hx

theorem note (event : Event) (fields : List (String × String)) :
    Gives (Run.note event fields) s (.ok ()) := fun _ h => ⟨rfl, h⟩

theorem count (f : Metrics → Metrics) : Gives (Run.count f) s (.ok ()) := fun _ h => ⟨rfl, h⟩

theorem ofSession (r : Except SessionError α) :
    Gives (Run.ofSession r) s (r.mapError .session) := lift _

theorem get_bind {f : ObservedSession → Run β} {r : Except QueryError β}
    (h : ∀ o, o.session = s → Gives (f o) s r) : Gives (get >>= f) s r :=
  fun o ho => h o ho o ho

theorem rows {q : PreparedQuery} (h : s.store.failure = none) :
    Gives (Run.rows q) s ((q.rows s.store).1.mapError .session) := by
  have hstore : (q.rows s.store).2 = s.store := by
    unfold PreparedQuery.rows
    rw [h]
    cases q.plan <;> rfl
  refine get_bind fun o ho => ?_
  rw [ho]
  refine after_note (fun o' ho' => ⟨rfl, ?_⟩) (ofSession _)
  show { o'.session with store := (q.rows s.store).2 } = s
  rw [hstore, ho']

end Gives

/-- The operation leaves what `f` reads of the observed session as it is. -/
def Keeps {γ : Type} (f : ObservedSession → γ) (x : Run α) : Prop := ∀ o, f (x.after o) = f o

namespace Keeps
variable {γ : Type} {f : ObservedSession → γ} {x : Run α}

theorem pure (a : α) : Keeps f (Pure.pure a : Run α) := fun _ => rfl

theorem throw (e : QueryError) : Keeps f (MonadExcept.throw e : Run α) := fun _ => rfl

theorem get : Keeps f (MonadState.get : Run ObservedSession) := fun _ => rfl

theorem of_modify {g : ObservedSession → ObservedSession} (h : ∀ o, f (g o) = f o) :
    Keeps f (modify g : Run Unit) := h

theorem lift (r : Except QueryError α) : Keeps f (liftExcept r) := by
  cases r with
  | ok a => exact pure a
  | error e => exact throw e

theorem bind {g : α → Run β} (h : Keeps f x) (hg : ∀ a, Keeps f (g a)) : Keeps f (x >>= g) := by
  intro o
  cases hout : x.outcome o with
  | ok a => rw [(bind_of_ok hout).2, hg a, h]
  | error e => rw [(bind_of_error hout).2, h]

theorem ofSession (r : Except SessionError α) : Keeps f (Run.ofSession r) := lift _

end Keeps

end Run

end EntityQuery
