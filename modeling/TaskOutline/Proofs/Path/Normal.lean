import TaskOutline.Proofs.Path.Parent

/-! # The path that a place spells

A place can be written out as a path again, which leads there (`Path.place_normal`): the
steps up without a name of which a place keeps one are in front, where they find no name
either.

Where a path leads that is joined to another one hangs on the place of the latter alone
(`Path.place_join`).  So of a directory only the place matters to the paths that are looked
up in it, however the directory is spelled (`Path.place_join_congr`).
-/
namespace TaskOutline

/-- Going into names puts them before those that are there. -/
theorem foldl_follow_names (names found : List String) :
    (names.map Component.name).foldl Place.follow found = names.reverse ++ found := by
  induction names generalizing found with
  | nil => rfl
  | cons name names ih =>
    rw [List.map_cons, List.foldl_cons, ih, List.reverse_cons, List.append_assoc]
    rfl

namespace Path

/-- The path in the spelling of its place. -/
def normal (p : Path) : Path := ⟨p.place.text⟩

variable (p : Path)

theorem names_place : p.place.names = kept p.overruns ++ p.spot.names.reverse := by
  have hkept : (kept p.overruns).reverse = kept p.overruns := List.reverse_replicate
  rw [place_eq_spot, List.reverse_append, hkept]

theorem chars_normal : p.normal.chars =
    (if p.isAbsolute then ['/'] else []) ++
      ['/'].intercalate (p.place.names.map String.toList) := by
  have hsign : (if p.isAbsolute = true then "/" else "").toList =
      if p.isAbsolute = true then ['/'] else [] := by
    split <;> decide
  show ((if p.isAbsolute = true then "/" else "") ++ "/".intercalate p.place.names).toList = _
  rw [String.toList_append, String.toList_intercalate, hsign]
  rfl

/-- What a spot has as a name is one piece, and a step into this name. -/
theorem piece_of_mem_spot {name : String} (h : name ∈ p.spot.names) :
    '/' ∉ name.toList ∧ step? name.toList = some (.name name) := by
  rcases mem_names_foldl h with h | h
  · cases h
  · obtain ⟨hpiece, hstep⟩ := piece_of_name_mem_components h
    exact ⟨not_mem_of_mem_splitOn _ hpiece, hstep⟩

/-- The names of a place are pieces of a path. -/
theorem piece_of_mem_place {name : String} (h : name ∈ p.place.names) :
    '/' ∉ name.toList ∧ name.toList ≠ [] := by
  rw [names_place] at h
  rcases List.mem_append.mp h with hup | hname
  · rw [List.eq_of_mem_replicate hup]
    decide
  · obtain ⟨hslash, hstep⟩ := p.piece_of_mem_spot (List.mem_reverse.mp hname)
    refine ⟨hslash, fun hnil => ?_⟩
    rw [hnil] at hstep
    cases hstep

theorem isAbsolute_normal : p.normal.isAbsolute = p.isAbsolute := by
  have hchars := p.chars_normal
  cases habsolute : p.isAbsolute with
  | true =>
    rw [habsolute, if_pos rfl] at hchars
    rw [isAbsolute, hchars]
    rfl
  | false =>
    rw [habsolute, if_neg Bool.false_ne_true, List.nil_append] at hchars
    rw [isAbsolute, hchars]
    cases hnames : p.place.names with
    | nil => rfl
    | cons name names =>
      -- the first name has a first character, which is no separator
      obtain ⟨hslash, hne⟩ := p.piece_of_mem_place (hnames ▸ List.mem_cons_self)
      obtain ⟨c, cs, hname⟩ := List.exists_cons_of_ne_nil hne
      have hbegins : [name.toList] <+: (name :: names).map String.toList :=
        List.prefix_append [name.toList] (names.map String.toList)
      obtain ⟨more, hmore⟩ := intercalate_begins ['/'] hbegins
      rw [← hmore, List.intercalate_singleton, hname]
      have hc : c ≠ '/' := fun heq => hslash (by rw [hname, heq]; exact List.mem_cons_self)
      simpa using hc

/-- The place spells out the steps up that it keeps and then its names. -/
theorem moves_normal : p.normal.moves =
    List.replicate (p.overruns % 2) .up ++ p.spot.names.reverse.map .name := by
  have hpieces : ∀ piece ∈ p.place.names.map String.toList, '/' ∉ piece := by
    intro piece hpiece
    obtain ⟨name, hname, rfl⟩ := List.mem_map.mp hpiece
    exact (p.piece_of_mem_place hname).1
  have hsign : p.normal.moves =
      movesOf (['/'].intercalate (p.place.names.map String.toList)) := by
    rw [moves, chars_normal]
    split
    · exact movesOf_slash _
    · rfl
  have hup : step? "..".toList = some .up := by decide
  have hnames : (p.spot.names.reverse.map String.toList).filterMap step? =
      p.spot.names.reverse.map .name := by
    rw [List.filterMap_map, ← List.filterMap_eq_map]
    exact List.filterMap_congr fun name hname =>
      (p.piece_of_mem_spot (List.mem_reverse.mp hname)).2
  rw [hsign, movesOf_intercalate hpieces, names_place, List.map_append, List.filterMap_append,
    hnames, kept, List.map_replicate, List.filterMap_replicate_of_some hup]

/-- **A place leads to itself.** -/
theorem place_normal : p.normal.place = p.place := by
  have hups : (List.replicate (p.overruns % 2) Component.up).foldl Place.follow [] =
      kept p.overruns := by
    unfold kept
    rcases Nat.mod_two_eq_zero_or_one p.overruns with h | h <;> rw [h] <;> rfl
  rw [place_eq_moves, moves_normal, List.foldl_append, hups, foldl_follow_names,
    List.reverse_reverse, isAbsolute_normal, ← place_eq_spot]

/-! ## Joining -/

variable {p} {q r : Path}

/-- **The place of a joined path** is found by going on from the place of the first. -/
theorem place_join (h : q.isAbsolute = false) :
    (p.join q).place =
      ⟨p.isAbsolute, (q.moves.foldl Place.follow p.place.names.reverse).reverse⟩ := by
  by_cases hp : p.text = ""
  · obtain rfl : p = ⟨""⟩ := by
      cases p
      exact congrArg Path.mk hp
    have hjoin : (⟨""⟩ : Path).join q = q := by
      rw [join, if_pos (.inr (by decide))]
    rw [hjoin, place_eq_moves, h]
    rfl
  · rw [place_eq_moves, place_eq_moves p, moves_join hp h, isAbsolute_join hp h, List.foldl_append,
      List.reverse_reverse]

/-- **The spelling of a directory does not matter** to where a path in it leads. -/
theorem place_join_congr (h : p.place = r.place) (q : Path) :
    (p.join q).place = (r.join q).place := by
  by_cases hq : q.isAbsolute = true
  · rw [join, if_pos (.inl hq), join, if_pos (.inl hq)]
  · have hrelative : q.isAbsolute = false := by simpa using hq
    have habsolute : p.isAbsolute = r.isAbsolute := congrArg Place.absolute h
    rw [place_join hrelative, place_join hrelative, habsolute, h]

end Path

end TaskOutline
