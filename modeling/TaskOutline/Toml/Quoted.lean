import TaskOutline.Toml.Scalar

/-! # Quoted TOML texts

Texts stand between double quotes, where a backslash writes another character,
or between single quotes, where every character stands for itself. Quotes
written three times enclose a text of several lines. Each reader begins after
the opening quotes and gives back what follows the closing ones, which is
shorter than what it began with.
-/
namespace TaskOutline.Toml

/-- What is left of a text after something has been read from it. -/
abbrev Rest (cs : List Char) := { rest : List Char // rest.length < cs.length }

/-- Something read from the front of a text, and what is left. -/
abbrev Reading (α : Type) (cs : List Char) := Option (α × Rest cs)

/-- A character was read, and what follows it is left. -/
def Rest.tail (c : Char) (cs : List Char) : Rest (c :: cs) := ⟨cs, by simp⟩

/-- What is left after more has been read. -/
def Rest.trans {cs : List Char} (r : Rest cs) (s : Rest r.val) : Rest cs :=
  ⟨s.val, Nat.lt_trans s.property r.property⟩

/-- What is left when nothing is read from a text with one more character. -/
def Rest.within {c : Char} {cs : List Char} (r : Rest cs) : Rest (c :: cs) :=
  ⟨r.val, Nat.lt_succ_of_lt r.property⟩

/-- Whether a character may stand in a text or a comment: no control character but
the tab. -/
def isPlain (c : Char) : Bool :=
  c == '\t' || (0x20 ≤ c.toNat && c.toNat ≠ 0x7F)

/-- The character with a number that is written in base sixteen. -/
def hexChar? (digits : List Char) : Option Char :=
  if digits.all (isDigitOf 16) then
    let n := valueIn 16 digits
    if n.isValidChar then some (Char.ofNat n) else none
  else none

/-- The character that a letter after a backslash stands for. -/
def shortEscape? : Char → Option Char
  | 'b' => some '\x08'
  | 't' => some '\t'
  | 'n' => some '\n'
  | 'f' => some '\x0c'
  | 'r' => some '\r'
  | '"' => some '"'
  | '\\' => some '\\'
  | _ => none

/-- Reads the character that is written after a backslash. -/
def readEscape : (cs : List Char) → Reading Char cs
  | 'u' :: a :: b :: c :: d :: rest =>
    (hexChar? [a, b, c, d]).map fun x => (x, ⟨rest, by simp only [List.length_cons]; omega⟩)
  | 'U' :: a :: b :: c :: d :: e :: f :: g :: h :: rest =>
    (hexChar? [a, b, c, d, e, f, g, h]).map fun x => (x, ⟨rest, by simp only [List.length_cons]; omega⟩)
  | e :: rest => (shortEscape? e).map fun x => (x, .tail e rest)
  | [] => none

/-- Reads a text up to its closing double quote. -/
def readDouble : (cs : List Char) → Reading (List Char) cs
  | [] => none
  | '"' :: rest => some ([], .tail _ rest)
  | '\\' :: rest => do
    let (x, after) ← readEscape rest
    let (text, left) ← readDouble after.val
    return (x :: text, (after.trans left).within)
  | c :: rest =>
    if isPlain c then do
      let (text, left) ← readDouble rest
      return (c :: text, left.within)
    else none
termination_by cs => cs.length
decreasing_by
  · exact Nat.lt_succ_of_lt after.property
  · exact Nat.lt_succ_self _

/-- Reads a text up to its closing single quote. -/
def readSingle : (cs : List Char) → Reading (List Char) cs
  | [] => none
  | '\'' :: rest => some ([], .tail _ rest)
  | c :: rest =>
    if isPlain c then do
      let (text, left) ← readSingle rest
      return (c :: text, left.within)
    else none

/-- Reads closing quotes, of which three end the text and up to two before them
belong to it. -/
def readClosing (quote : Char) : (cs : List Char) → Reading (List Char) cs
  | a :: b :: c :: d :: e :: rest =>
    if [a, b, c].all (· == quote) then
      if d = quote then
        if e = quote then some ([quote, quote], ⟨rest, by simp only [List.length_cons]; omega⟩)
        else some ([quote], ⟨e :: rest, by simp⟩)
      else some ([], ⟨d :: e :: rest, by simp⟩)
    else none
  | [a, b, c, d] =>
    if [a, b, c].all (· == quote) then
      if d = quote then some ([quote], ⟨[], by simp⟩) else some ([], ⟨[d], by simp⟩)
    else none
  | [a, b, c] => if [a, b, c].all (· == quote) then some ([], ⟨[], by simp⟩) else none
  | _ => none

/-- Reads a text of several lines up to its closing single quotes. -/
def readSingleLines : (cs : List Char) → Reading (List Char) cs
  | [] => none
  | '\r' :: '\n' :: rest => do
    let (text, left) ← readSingleLines rest
    return ('\n' :: text, left.within.within)
  | c :: rest =>
    match readClosing '\'' (c :: rest) with
    | some closed => some closed
    | none =>
      if isPlain c ∨ c = '\n' then do
        let (text, left) ← readSingleLines rest
        return (c :: text, left.within)
      else none

/-- How a text of several lines goes on after a backslash at the end of a line. -/
inductive LineJoin where
  /-- There was none: the characters stand for themselves. -/
  | apart
  /-- Only blanks may follow, up to the end of the line. -/
  | ending
  /-- Blanks and line ends are passed over. -/
  | joining
deriving DecidableEq

/-- Reads a text of several lines up to its closing double quotes. -/
def readDoubleLines (join : LineJoin) : (cs : List Char) → Reading (List Char) cs
  | [] => none
  | '\r' :: '\n' :: rest => do
    let (text, left) ← readDoubleLines (if join = .apart then .apart else .joining) rest
    return (if join = .apart then '\n' :: text else text, left.within.within)
  | c :: rest =>
    if join ≠ .apart ∧ c = '\n' then do
      let (text, left) ← readDoubleLines .joining rest
      return (text, left.within)
    else if join ≠ .apart ∧ (c = ' ' ∨ c = '\t') then do
      let (text, left) ← readDoubleLines join rest
      return (text, left.within)
    else if join = .ending then none
    else if c = '\\' then
      match rest.head? with
      | none => none
      | some e =>
        if e = ' ' ∨ e = '\t' ∨ e = '\n' ∨ e = '\r' then do
          let (text, left) ← readDoubleLines .ending rest
          return (text, left.within)
        else do
          let (x, after) ← readEscape rest
          let (text, left) ← readDoubleLines .apart after.val
          return (x :: text, (after.trans left).within)
    else
      match readClosing '"' (c :: rest) with
      | some closed => some closed
      | none =>
        if isPlain c ∨ c = '\n' then do
          let (text, left) ← readDoubleLines .apart rest
          return (c :: text, left.within)
        else none
termination_by cs => cs.length
decreasing_by
  · exact Nat.lt_succ_of_lt (Nat.lt_succ_self _)
  · exact Nat.lt_succ_self _
  · exact Nat.lt_succ_self _
  · exact Nat.lt_succ_self _
  · exact Nat.lt_succ_of_lt after.property
  · exact Nat.lt_succ_self _

/-- The text after a line end at its front, if there is one. The first line end of a
text of several lines does not count. -/
def dropFirstLineEnd : List Char → List Char
  | '\n' :: rest => rest
  | '\r' :: '\n' :: rest => rest
  | cs => cs

theorem length_dropFirstLineEnd_le (cs : List Char) :
    (dropFirstLineEnd cs).length ≤ cs.length := by
  unfold dropFirstLineEnd
  split <;> simp
  omega

/-- Reads a quoted text on one line. -/
def readQuotedLine : (cs : List Char) → Reading String cs
  | '"' :: rest => (readDouble rest).map fun (text, left) => (String.ofList text, left.within)
  | '\'' :: rest => (readSingle rest).map fun (text, left) => (String.ofList text, left.within)
  | _ => none

/-- Reads a quoted text of either sort. -/
def readQuoted : (cs : List Char) → Reading String cs
  | '"' :: '"' :: '"' :: rest =>
    (readDoubleLines .apart (dropFirstLineEnd rest)).map fun (text, left) =>
      (String.ofList text, ⟨left.val, by
        have := left.property
        have := length_dropFirstLineEnd_le rest
        simp; omega⟩)
  | '\'' :: '\'' :: '\'' :: rest =>
    (readSingleLines (dropFirstLineEnd rest)).map fun (text, left) =>
      (String.ofList text, ⟨left.val, by
        have := left.property
        have := length_dropFirstLineEnd_le rest
        simp; omega⟩)
  | cs => readQuotedLine cs

end TaskOutline.Toml
