import TaskOutline.Property.Reason
import TaskOutline.Text.Blank

/-! # Declared values

A property that passes from a task to its descendants is declared in one of
three ways: not at all, as `none`, or with a value. Only the first takes what
the parent has.
-/
namespace TaskOutline

/-- A property as a task declares it. -/
inductive Declared (α : Type) where
  /-- Nothing is declared, so that the parent's value holds. -/
  | unset
  /-- Declared as `none`: there is no value, whatever the parent has. -/
  | cleared
  | value (a : α)
deriving DecidableEq, Inhabited

/-- The word that declares the absence of a value. -/
def noneWord : String := "none"

namespace Declared

variable {α : Type}

/-- The value that holds, given the one that holds for the parent. -/
def resolve (inherited : Option α) : Declared α → Option α
  | unset => inherited
  | cleared => none
  | value a => some a

@[simp] theorem resolve_unset (inherited : Option α) :
    (unset : Declared α).resolve inherited = inherited := rfl

@[simp] theorem resolve_cleared (inherited : Option α) :
    (cleared : Declared α).resolve inherited = none := rfl

@[simp] theorem resolve_value (inherited : Option α) (a : α) :
    (value a).resolve inherited = some a := rfl

/-- Reads a declaration: the word `none` in any ASCII case, or a value. -/
def parse (read : String → Except Reason α) (s : String) : Except Reason (Declared α) :=
  if Text.fold s.toList = noneWord.toList then .ok cleared else (read s).map value

/-- What is written for a declaration, if anything. -/
def text? (write : α → String) : Declared α → Option String
  | unset => none
  | cleared => some noneWord
  | value a => some (write a)

end Declared

end TaskOutline
