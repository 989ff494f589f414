/-! # Blank characters

Which characters separate words, and how a text is trimmed and cut at them.
The class is the Unicode property `White_Space`: twenty-five characters, most
of them outside ASCII.
-/
namespace TaskOutline.Text

/-- A character is blank when it has the Unicode property `White_Space`. -/
def isBlank (c : Char) : Bool :=
  let n := c.toNat
  (0x09 ≤ n && n ≤ 0x0D) || n == 0x20 || n == 0x85 || n == 0xA0 || n == 0x1680 ||
    (0x2000 ≤ n && n ≤ 0x200A) || n == 0x2028 || n == 0x2029 || n == 0x202F ||
    n == 0x205F || n == 0x3000

/-- Drops the blanks in front. -/
def trimStart (cs : List Char) : List Char :=
  cs.dropWhile isBlank

/-- Drops the blanks at the end. -/
def trimEnd (cs : List Char) : List Char :=
  (cs.reverse.dropWhile isBlank).reverse

/-- Drops the blanks on both sides. -/
def trim (cs : List Char) : List Char :=
  trimEnd (trimStart cs)

/-- A text is all blank when each of its characters is blank, so that trimming
leaves nothing of it. -/
def allBlank (cs : List Char) : Bool :=
  cs.all isBlank

/-- Cuts a text at its first blank: what stands before it, and what follows it.
A text without a blank is all in front. -/
def cutAtBlank (cs : List Char) : List Char × List Char :=
  (cs.takeWhile (!isBlank ·), (cs.dropWhile (!isBlank ·)).drop 1)

/-- The maximal runs of characters that are not blank, in order. -/
def words (cs : List Char) : List (List Char) :=
  (cs.splitOnP isBlank).filter (· ≠ [])

/-- A text with its ASCII letters in lower case; other characters stay as they are. -/
def fold (cs : List Char) : List Char :=
  cs.map Char.toLower

@[simp] theorem trimStart_nil : trimStart [] = [] := rfl

@[simp] theorem trimEnd_nil : trimEnd [] = [] := rfl

@[simp] theorem trim_nil : trim [] = [] := rfl

@[simp] theorem words_nil : words [] = [] := rfl

end TaskOutline.Text

namespace TaskOutline

/-- The text without the blanks on its two sides. -/
def trimmed (s : String) : String :=
  String.ofList (Text.trim s.toList)

end TaskOutline
