import SidCatalog.Log

/-! Computations that may fail and that log. The events logged before a failure are kept: a failed run has a
log too. -/

namespace SidCatalog

structure Attempt (α : Type) where
  outcome : Except Failure α
  events : List Event

namespace Attempt

variable {α β : Type}

def ofExcept (outcome : Except Failure α) : Attempt α := ⟨outcome, []⟩

def fail (f : Failure) : Attempt α := ⟨.error f, []⟩

def after (events : List Event) (a : Attempt α) : Attempt α := ⟨a.outcome, events ++ a.events⟩

instance : Monad Attempt where
  pure a := ⟨.ok a, []⟩
  bind a f :=
    match a.outcome with
    | .ok x => (f x).after a.events
    | .error e => ⟨.error e, a.events⟩

theorem pure_eq (x : α) : (pure x : Attempt α) = ⟨.ok x, []⟩ := rfl

theorem ok_bind (x : α) (events : List Event) (f : α → Attempt β) :
    (⟨.ok x, events⟩ : Attempt α) >>= f = (f x).after events := rfl

theorem error_bind (e : Failure) (events : List Event) (f : α → Attempt β) :
    (⟨.error e, events⟩ : Attempt α) >>= f = ⟨.error e, events⟩ := rfl

theorem outcome_bind (a : Attempt α) (f : α → Attempt β) :
    (a >>= f).outcome = a.outcome.bind fun x => (f x).outcome := by
  obtain ⟨outcome, events⟩ := a
  cases outcome <;> rfl

theorem bind_of_ok {a : Attempt α} {x : α} (h : a.outcome = .ok x) (f : α → Attempt β) :
    a >>= f = (f x).after a.events := by
  obtain ⟨outcome, events⟩ := a
  cases h
  rfl

theorem bind_of_error {a : Attempt α} {e : Failure} (h : a.outcome = .error e) (f : α → Attempt β) :
    a >>= f = ⟨.error e, a.events⟩ := by
  obtain ⟨outcome, events⟩ := a
  cases h
  rfl

@[simp] theorem after_nil (a : Attempt α) : a.after [] = a := rfl

@[simp] theorem after_after (es es' : List Event) (a : Attempt α) :
    (a.after es').after es = a.after (es ++ es') := by
  simp [after]

theorem after_bind (es : List Event) (a : Attempt α) (f : α → Attempt β) :
    a.after es >>= f = (a >>= f).after es := by
  obtain ⟨outcome, events⟩ := a
  cases outcome with
  | error e => rfl
  | ok x => exact (after_after es events (f x)).symm

instance : LawfulMonad Attempt :=
  LawfulMonad.mk' _
    (fun a => by
      obtain ⟨outcome, events⟩ := a
      cases outcome with
      | error e => rfl
      | ok x => simp [Functor.map, after])
    (fun _ _ => rfl)
    (fun a f g => by
      obtain ⟨outcome, events⟩ := a
      cases outcome with
      | error e => rfl
      | ok x => exact after_bind events (f x) g)

end Attempt

end SidCatalog
