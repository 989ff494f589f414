/-! # Paths

A path is a text in which `/` separates names. It is kept as it was written,
since it is shown that way; what it means is read off its components.
-/
namespace TaskOutline

/-- A path, as it was written. -/
structure Path where
  text : String
deriving DecidableEq, Inhabited

/-- One step of a path. -/
inductive Component where
  /-- From the top of the file system. -/
  | root
  /-- The directory where one is. -/
  | here
  /-- The directory above. -/
  | up
  /-- Into the file or directory of this name. -/
  | name (text : String)
deriving DecidableEq

namespace Path

/-- The characters of a path. -/
def chars (p : Path) : List Char := p.text.toList

/-- A path is absolute when it begins with `/`. -/
def isAbsolute (p : Path) : Bool := p.chars.head? == some '/'

/-- The step that a piece between two separators stands for, past the start of a
path: an empty piece and `.` stand for none. -/
def step? (piece : List Char) : Option Component :=
  if piece = [] ∨ piece = ['.'] then none
  else if piece = ['.', '.'] then some .up
  else some (.name (String.ofList piece))

/-- The steps of a path in order. A relative path may begin with one step `here`;
otherwise empty pieces and `.` are passed over. -/
def components (p : Path) : List Component :=
  match p.chars.splitOn '/' with
  | [] :: [] => []
  | [] :: pieces => .root :: pieces.filterMap step?
  | ['.'] :: pieces => .here :: pieces.filterMap step?
  | pieces => pieces.filterMap step?

/-- The path that leads along `p` and then along `q`. An absolute `q` stands alone. -/
def join (p q : Path) : Path :=
  if q.isAbsolute ∨ p.text.isEmpty then q
  else if p.chars.getLast? = some '/' then ⟨p.text ++ q.text⟩
  else ⟨p.text ++ "/" ++ q.text⟩

/-- Drops the pieces at the end that stand for no step, given last piece first. -/
def dropSilent (pieces : List (List Char)) : List (List Char) :=
  pieces.dropWhile fun piece => (step? piece).isNone

/-- The path without its last step, as far as it was written out before that step.
The top of the file system and the empty path have none. -/
def parent? (p : Path) : Option Path :=
  let (start, body) : List Char × List Char := match p.chars with
    | '/' :: body => (['/'], body)
    | ['.'] => (['.'], [])
    | '.' :: '/' :: body => (['.'], '/' :: body)
    | body => ([], body)
  match dropSilent (body.splitOn '/').reverse with
  | _ :: rest =>
    some ⟨String.ofList (start ++ ['/'].intercalate (dropSilent rest).reverse)⟩
  | [] => if start = ['.'] then some ⟨""⟩ else none

end Path

end TaskOutline
