/-! # Writing lines

A report is written as lines, each ended by a newline.
-/
namespace TaskOutline

/-- A line with its newline. -/
def endLine (line : String) : String := line ++ "\n"

/-- The text of these lines. -/
def unlines (ls : List String) : String := String.join (ls.map endLine)

end TaskOutline
