import TaskOutline.Toml.Quoted

/-! # TOML statements

A TOML text is a list of lines: headers in brackets, and keys with their values.
Arrays and tables between braces are values that hold others.
-/
namespace TaskOutline.Toml

/-- How deep arrays and tables may be nested, and how many parts a key may have,
is less than this. -/
def depthLimit : Nat := 80

/-- A dotted key: the parts before the last, and the last. -/
structure DottedKey where
  path : List String
  key : String
deriving DecidableEq

/-- The number of parts of a key. -/
def DottedKey.size (k : DottedKey) : Nat := k.path.length + 1

namespace Entries

/-- Gives the key at the end of a path a value. The tables on the path may be
implied or dotted, and are made where they are missing. The last of them has to be
dotted, and the key must not have a value. -/
def insert? (es : Entries) (path : List String) (key : String) (v : Value) : Option Entries :=
  match path with
  | [] => if es.has key then none else some (es.put key v)
  | name :: rest =>
    match es.get? name with
    | none => do
      let inner ← insert? [] rest key v
      return es.put name (.table .dotted inner)
    | some (.table kind inner) =>
      if kind = .dotted ∨ (kind = .implied ∧ rest ≠ []) then do
        let inner ← insert? inner rest key v
        return es.put name (.table kind inner)
      else none
    | some (.tables items) =>
      if rest = [] then none
      else do
        let inner ← insert? (items.getLast?.getD []) rest key v
        return es.put name (.tables (items.dropLast ++ [inner]))
    | some _ => none

end Entries

/-- Whether a blank may be passed over on a line. -/
def isSpace (c : Char) : Bool := c == ' ' || c == '\t'

/-- Drops the blanks in front, up to the end of the line. -/
def skipSpace (cs : List Char) : List Char := cs.dropWhile isSpace

theorem length_skipSpace_le (cs : List Char) : (skipSpace cs).length ≤ cs.length :=
  (List.dropWhile_sublist _).length_le

/-- What is left when blanks were dropped before something was read. -/
def Rest.afterSpace {cs : List Char} (r : Rest (skipSpace cs)) : Rest cs :=
  ⟨r.val, Nat.lt_of_lt_of_le r.property (length_skipSpace_le cs)⟩

/-- Drops blanks, line ends and comments in front. -/
def skipGaps (inComment : Bool) : List Char → List Char
  | '\r' :: '\n' :: rest => skipGaps false rest
  | '\n' :: rest => skipGaps false rest
  | c :: rest =>
    if inComment then
      if isPlain c then skipGaps true rest else c :: rest
    else if isSpace c then skipGaps false rest
    else if c = '#' then skipGaps true rest
    else c :: rest
  | [] => []

theorem length_skipGaps_le (inComment : Bool) (cs : List Char) :
    (skipGaps inComment cs).length ≤ cs.length := by
  fun_induction skipGaps inComment cs <;> simp_all <;> omega

/-- What follows the end of a line. The end of the text ends a line too. -/
def lineEnd? : List Char → Option (List Char)
  | [] => some []
  | '\n' :: rest => some rest
  | '\r' :: '\n' :: rest => some rest
  | _ => none

theorem length_lineEnd?_le {cs rest : List Char} (h : lineEnd? cs = some rest) :
    rest.length ≤ cs.length := by
  unfold lineEnd? at h
  split at h <;> cases h <;> simp
  omega

/-- What follows a line of which only blanks and perhaps a comment are left. -/
def lineRest? (cs : List Char) : Option (List Char) :=
  match skipSpace cs with
  | '#' :: comment => lineEnd? (comment.dropWhile isPlain)
  | rest => lineEnd? rest

theorem length_lineRest?_le {cs rest : List Char} (h : lineRest? cs = some rest) :
    rest.length ≤ cs.length := by
  unfold lineRest? at h
  have hs := length_skipSpace_le cs
  split at h
  · rename_i comment hc
    have hd := (List.dropWhile_sublist isPlain (l := comment)).length_le
    have := length_lineEnd?_le h
    rw [hc, List.length_cons] at hs
    omega
  · exact Nat.le_trans (length_lineEnd?_le h) hs

/-- Whether a character may stand in a key without quotes. -/
def isBareKeyChar (c : Char) : Bool := c.isAlphanum || c == '_' || c == '-'

/-- Reads one part of a key. -/
def readKeyPart (cs : List Char) : Reading String cs :=
  match cs with
  | [] => none
  | c :: rest =>
    if c = '"' ∨ c = '\'' then readQuotedLine (c :: rest)
    else if isBareKeyChar c then
      some (String.ofList (c :: rest.takeWhile isBareKeyChar),
        ⟨rest.dropWhile isBareKeyChar,
          Nat.lt_succ_of_le (List.dropWhile_sublist _).length_le⟩)
    else none

/-- Reads a key: parts with dots between them, each perhaps with blanks around it. -/
def readKey (cs : List Char) : Reading DottedKey cs :=
  match readKeyPart (skipSpace cs) with
  | none => none
  | some (part, ⟨left, hl⟩) =>
    have hcs := length_skipSpace_le cs
    have hleft := length_skipSpace_le left
    match hd : skipSpace left with
    | '.' :: more =>
      have hm : more.length < cs.length := by
        rw [hd, List.length_cons] at hleft
        omega
      match readKey more with
      | none => none
      | some (k, ⟨rest, hr⟩) => some (⟨part :: k.path, k.key⟩, ⟨rest, by omega⟩)
    | rest => some (⟨[], part⟩, ⟨rest, by rw [hd] at hleft; omega⟩)
termination_by cs.length

/-- What follows the equals sign after a key. -/
def afterEquals? : (cs : List Char) → Option (Rest cs)
  | '=' :: rest => some (.tail '=' rest)
  | _ => none

/-- Reads a bare value. A blank between a date and a time is part of it. -/
def readBare (cs : List Char) : Reading Value cs :=
  let word := cs.takeWhile isBareValueChar
  let rest := cs.dropWhile isBareValueChar
  let more := match rest with
    | ' ' :: rest => ' ' :: rest.takeWhile isBareValueChar
    | _ => []
  let both := word ++ more
  if hb : more ≠ [] ∧ isDate word ∧ isTime both ∧ cs = both ++ cs.drop both.length then
    some (.time (String.ofList both), ⟨cs.drop both.length, by
      have hpos : both.length ≠ 0 := by simp [both, hb.1]
      have hlen := congrArg List.length hb.2.2.2
      rw [List.length_append] at hlen
      omega⟩)
  else if hw : word = [] then none
  else
    (readBare? word).map fun v => (v, ⟨rest, by
      have hlen : (word ++ rest).length = cs.length := by
        rw [List.takeWhile_append_dropWhile]
      have hpos : word.length ≠ 0 := by simp [hw]
      rw [List.length_append] at hlen
      omega⟩)

mutual

/-- Reads a value, inside arrays and tables of this depth. -/
def readValue (depth : Nat) (cs : List Char) : Reading Value cs :=
  match cs with
  | [] => none
  | '"' :: rest => (readQuoted ('"' :: rest)).map fun (s, left) => (.text s, left)
  | '\'' :: rest => (readQuoted ('\'' :: rest)).map fun (s, left) => (.text s, left)
  | '[' :: rest =>
    if depthLimit ≤ depth + 1 then none
    else do
      let (items, left) ← readItems (depth + 1) rest
      return (.array items, left.within)
  | '{' :: rest =>
    if depthLimit ≤ depth + 1 then none
    else do
      let (entries, left) ← readEntries (depth + 1) true [] rest
      return (.table .inline entries, left.within)
  | c :: rest => readBare (c :: rest)
termination_by 2 * cs.length
decreasing_by all_goals (rw [List.length_cons]; omega)

/-- Reads the items of an array up to its closing bracket. -/
def readItems (depth : Nat) (cs : List Char) : Reading (List Value) cs :=
  have hgap := length_skipGaps_le false cs
  match hs : skipGaps false cs with
  | ']' :: rest => some ([], ⟨rest, by rw [hs, List.length_cons] at hgap; omega⟩)
  | start =>
    have hstart : start.length ≤ cs.length :=
      Nat.le_trans (Nat.le_of_eq (congrArg List.length hs.symm)) hgap
    match readValue depth start with
    | none => none
    | some (item, ⟨left, hl⟩) =>
      have hleft := length_skipGaps_le false left
      match hc : skipGaps false left with
      | ',' :: more =>
        have hm : more.length < left.length := by
          rw [hc, List.length_cons] at hleft
          omega
        match readItems depth more with
        | none => none
        | some (items, ⟨rest, hr⟩) => some (item :: items, ⟨rest, by omega⟩)
      | ']' :: rest =>
        some ([item], ⟨rest, by rw [hc, List.length_cons] at hleft; omega⟩)
      | _ => none
termination_by 2 * cs.length + 1
decreasing_by all_goals omega

/-- Reads the entries of a table up to its closing brace. Only the first place may be
left empty. -/
def readEntries (depth : Nat) (first : Bool) (read : Entries) (cs : List Char) :
    Reading Entries cs :=
  have hgap := length_skipSpace_le cs
  match hs : skipSpace cs with
  | '}' :: rest =>
    if first then some (read, ⟨rest, by rw [hs, List.length_cons] at hgap; omega⟩) else none
  | start =>
    have hstart : start.length ≤ cs.length :=
      Nat.le_trans (Nat.le_of_eq (congrArg List.length hs.symm)) hgap
    match readKey start with
    | none => none
    | some (k, ⟨afterKey, hk⟩) =>
      match afterEquals? afterKey with
      | none => none
      | some ⟨before, hb⟩ =>
        have hbefore := length_skipSpace_le before
        if depthLimit ≤ k.size then none
        else match readValue depth (skipSpace before) with
        | none => none
        | some (v, ⟨left, hl⟩) =>
          have hleft := length_skipSpace_le left
          match read.insert? k.path k.key v with
          | none => none
          | some read =>
            match hc : skipSpace left with
            | ',' :: more =>
              have hm : more.length < left.length := by
                rw [hc, List.length_cons] at hleft
                omega
              match readEntries depth false read more with
              | none => none
              | some (entries, ⟨rest, hr⟩) => some (entries, ⟨rest, by omega⟩)
            | '}' :: rest =>
              some (read, ⟨rest, by rw [hc, List.length_cons] at hleft; omega⟩)
            | _ => none
termination_by 2 * cs.length + 1
decreasing_by all_goals omega

end

end TaskOutline.Toml
