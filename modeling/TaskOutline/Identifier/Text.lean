import TaskOutline.Identifier.Basic
import TaskOutline.Text.Blank
import TaskOutline.Text.Decimal

/-! # Identifiers as text

An identifier is written as its segments in decimal with a dot between them.
Leading zeros and blanks around the whole are accepted when one is read. The
leftmost part that is no segment decides which error is reported.
-/
namespace TaskOutline

/-- Why a text is no identifier. A bad part is kept as it was written. -/
inductive IdError where
  | empty
  | invalidSegment (part : String)
  | zeroSegment (part : String)
  | segmentTooLarge (part : String)
deriving DecidableEq

/-- The wording of an identifier error. -/
def IdError.message : IdError → String
  | .empty => "Task ID cannot be empty"
  | .invalidSegment part => "Task ID part '" ++ part ++ "' must be a positive integer"
  | .zeroSegment part => "Task ID part '" ++ part ++ "' must be positive"
  | .segmentTooLarge part =>
    "Task ID part '" ++ part ++ "' is too large (maximum " ++ natText maxSegment ++ ")"

namespace TaskId

/-- Reads one part of an identifier. -/
def readSegment (part : List Char) : Except IdError { n : Nat // IsSegment n } :=
  match Text.readNat? part with
  | none => .error (.invalidSegment (String.ofList part))
  | some n =>
    if hz : n = 0 then .error (.zeroSegment (String.ofList part))
    else if hm : n ≤ maxSegment then .ok ⟨n, Nat.pos_of_ne_zero hz, hm⟩
    else .error (.segmentTooLarge (String.ofList part))

/-- Reads parts from the left, up to the first that is no segment. -/
def readSegments : List (List Char) → Except IdError { ns : List Nat // ∀ n ∈ ns, IsSegment n }
  | [] => .ok ⟨[], by simp⟩
  | part :: parts => do
    let n ← readSegment part
    let ns ← readSegments parts
    return ⟨n.val :: ns.val, List.forall_mem_cons.mpr ⟨n.property, ns.property⟩⟩

/-- Reads an identifier from a text without blanks around it. -/
def readTrimmed (cs : List Char) : Except IdError TaskId :=
  if cs = [] then .error .empty
  else match cs.splitOn '.' with
    | [] => .error .empty
    | part :: parts => do
      let n ← readSegment part
      let ns ← readSegments parts
      return ⟨n.val :: ns.val, by simp, List.forall_mem_cons.mpr ⟨n.property, ns.property⟩⟩

/-- Reads an identifier, with or without blanks around it. -/
def parse (s : String) : Except IdError TaskId :=
  readTrimmed (Text.trim s.toList)

/-- The characters of an identifier: its segments with a dot between them. -/
def chars (id : TaskId) : List Char :=
  ['.'].intercalate (id.segments.map Text.numeral)

/-- An identifier as text. -/
def text (id : TaskId) : String :=
  String.ofList id.chars

instance : ToString TaskId := ⟨text⟩

end TaskId

end TaskOutline
