import TaskOutline.Diagnostic

/-! # Results with diagnostics

A step that goes on after a problem yields a value together with what it has
to report. Steps in a row report one after the other.
-/
namespace TaskOutline

/-- A value and the diagnostics of the steps that led to it, in order. -/
structure Logged (α : Type) where
  value : α
  log : List Diagnostic

namespace Logged

variable {α β : Type}

instance : Monad Logged where
  pure a := ⟨a, []⟩
  bind x f := let y := f x.value; ⟨y.value, x.log ++ y.log⟩

/-- Reports one problem. -/
def report (severity : Severity) (location : Option Location) (problem : Problem) : Logged Unit :=
  ⟨(), [⟨severity, location, problem⟩]⟩

/-- Reports an error at a place. -/
def error (location : Location) (problem : Problem) : Logged Unit :=
  report .error (some location) problem

/-- Reports a warning at a place. -/
def warn (location : Location) (problem : Problem) : Logged Unit :=
  report .warning (some location) problem

@[simp] theorem value_pure (a : α) : (pure a : Logged α).value = a := rfl

@[simp] theorem log_pure (a : α) : (pure a : Logged α).log = [] := rfl

@[simp] theorem value_bind (x : Logged α) (f : α → Logged β) :
    (x >>= f).value = (f x.value).value := rfl

@[simp] theorem log_bind (x : Logged α) (f : α → Logged β) :
    (x >>= f).log = x.log ++ (f x.value).log := rfl

@[simp] theorem log_error (location : Location) (problem : Problem) :
    (error location problem).log = [⟨.error, some location, problem⟩] := rfl

@[simp] theorem log_warn (location : Location) (problem : Problem) :
    (warn location problem).log = [⟨.warning, some location, problem⟩] := rfl

@[ext] theorem ext {x y : Logged α} (hvalue : x.value = y.value) (hlog : x.log = y.log) :
    x = y := by
  cases x
  cases y
  cases hvalue
  cases hlog
  rfl

/-- A step after one that reports nothing. -/
theorem silent_bind (a : α) (f : α → Logged β) : (⟨a, []⟩ : Logged α) >>= f = f a := rfl

end Logged

end TaskOutline
