import Mathlib.Data.List.Basic
import TaskOutline.Proofs.Path.Spot

/-! # The directory of a file

Cut at its separators, a path is a list of pieces, and its place hangs on the pieces that
stand for a step (`Path.moves`).  Joining puts the moves of two paths one after the other
(`Path.moves_join`), and a path is its parent and one move more (`Path.exists_parent?`).
So the name of a file, joined to the parent of its path, leads to the file again, however
the path is spelled (`Path.place_join_parent?`).  A bare name is another matter: its
parent is empty.
-/
namespace TaskOutline

/-- A text between two separators has none in it. -/
theorem not_mem_of_mem_splitOn {c : Char} {cs : List Char} :
    ∀ piece ∈ cs.splitOn c, c ∉ piece := by
  induction cs with
  | nil => simp [List.splitOn_nil]
  | cons d cs ih =>
    rw [List.splitOn_cons_eq_if_modifyHead]
    split
    · intro piece hpiece
      rcases List.mem_cons.mp hpiece with rfl | hpiece
      · exact List.not_mem_nil
      · exact ih piece hpiece
    · rename_i hne
      obtain ⟨first, rest, heq⟩ := List.exists_cons_of_ne_nil (List.splitOn_ne_nil c cs)
      rw [heq] at ih ⊢
      obtain ⟨hfirst, hrest⟩ := List.forall_mem_cons.mp ih
      refine List.forall_mem_cons.mpr ⟨fun hmem => ?_, hrest⟩
      rcases List.mem_cons.mp hmem with rfl | hmem
      · simp at hne
      · exact hfirst hmem

/-- Texts put together begin with what the first of them make together. -/
theorem intercalate_begins (sep : List Char) {xs ys : List (List Char)} (h : xs <+: ys) :
    sep.intercalate xs <+: sep.intercalate ys := by
  obtain ⟨more, rfl⟩ := h
  induction xs with
  | nil => exact List.nil_prefix
  | cons x xs ih =>
    cases xs with
    | nil =>
      cases more with
      | nil => exact List.prefix_refl _
      | cons y more =>
        rw [List.singleton_append, List.intercalate_cons_cons, List.append_assoc]
        simp
    | cons x' xs =>
      rw [List.cons_append, List.cons_append, List.intercalate_cons_cons,
        List.intercalate_cons_cons]
      exact (List.prefix_append_right_inj _).mpr ih

namespace Path

/-! ## Moves -/

/-- The steps that the pieces of a text stand for. -/
def movesOf (cs : List Char) : List Component := (cs.splitOn '/').filterMap step?

/-- The steps of a path without the one that says where it starts. -/
def moves (p : Path) : List Component := movesOf p.chars

theorem movesOf_append (cs ds : List Char) :
    movesOf (cs ++ '/' :: ds) = movesOf cs ++ movesOf ds := by
  rw [movesOf, List.splitOn_append_cons_self, List.filterMap_append]
  rfl

theorem movesOf_nil : movesOf [] = [] := rfl

theorem movesOf_slash (cs : List Char) : movesOf ('/' :: cs) = movesOf cs :=
  movesOf_append [] cs

/-- A piece makes at most one move. -/
theorem movesOf_piece {piece : List Char} (h : '/' ∉ piece) :
    movesOf piece = (step? piece).toList := by
  rw [movesOf, List.splitOn_eq_singleton h]
  cases hstep : step? piece <;> simp [hstep]

theorem movesOf_intercalate {pieces : List (List Char)} (h : ∀ piece ∈ pieces, '/' ∉ piece) :
    movesOf (['/'].intercalate pieces) = pieces.filterMap step? := by
  by_cases hne : pieces = []
  · subst hne
    rfl
  · rw [movesOf, List.splitOn_intercalate '/' h hne]

/-- **The place of a path hangs on its moves.** -/
theorem place_eq_moves (p : Path) :
    p.place = ⟨p.isAbsolute, (p.moves.foldl Place.follow []).reverse⟩ := by
  obtain ⟨start, heq, hstart⟩ := p.components_eq
  have hsame : p.components.foldl Place.follow [] = p.moves.foldl Place.follow [] := by
    rw [heq, List.foldl_append]
    rcases hstart with rfl | rfl | rfl <;> rfl
  rw [place, hsame]

/-! ## Joining -/

theorem chars_ne_nil {p : Path} (h : p.text ≠ "") : p.chars ≠ [] :=
  fun hnil => h (String.toList_eq_nil_iff.mp hnil)

/-- A path that is followed and then another one, which is relative. -/
theorem chars_join {p q : Path} (hp : p.text ≠ "") (hq : q.isAbsolute = false) :
    ∃ front, (p.chars = front ∨ p.chars = front ++ ['/']) ∧
      (p.join q).chars = front ++ '/' :: q.chars := by
  have hnot : ¬ (q.isAbsolute = true ∨ p.text.isEmpty = true) := by simp [hq, hp]
  rw [join, if_neg hnot]
  split
  · rename_i hlast
    obtain ⟨front, hfront⟩ := List.getLast?_eq_some_iff.mp hlast
    refine ⟨front, .inr hfront, ?_⟩
    show (p.text ++ q.text).toList = _
    rw [String.toList_append, show p.text.toList = front ++ ['/'] from hfront, List.append_assoc]
    rfl
  · refine ⟨p.chars, .inl rfl, ?_⟩
    show (p.text ++ "/" ++ q.text).toList = _
    rw [String.toList_append, String.toList_append, List.append_assoc]
    rfl

/-- **Joining puts moves one after the other.** -/
theorem moves_join {p q : Path} (hp : p.text ≠ "") (hq : q.isAbsolute = false) :
    (p.join q).moves = p.moves ++ q.moves := by
  obtain ⟨front, hfront, hjoin⟩ := chars_join hp hq
  have hmoves : p.moves = movesOf front := by
    rcases hfront with hfront | hfront
    · rw [moves, hfront]
    · rw [moves, hfront, movesOf_append, movesOf_nil, List.append_nil]
  rw [moves, hjoin, movesOf_append, hmoves]
  rfl

theorem isAbsolute_join {p q : Path} (hp : p.text ≠ "") (hq : q.isAbsolute = false) :
    (p.join q).isAbsolute = p.isAbsolute := by
  obtain ⟨front, hfront, hjoin⟩ := chars_join hp hq
  have hne := chars_ne_nil hp
  unfold isAbsolute
  rw [hjoin]
  rcases hfront with hfront | hfront
  · rw [hfront] at hne ⊢
    obtain ⟨c, rest, rfl⟩ := List.exists_cons_of_ne_nil hne
    rfl
  · rw [hfront]
    cases front <;> rfl

/-! ## Parents -/

/-- Pieces that stand for no step can be dropped. -/
theorem filterMap_dropSilent (pieces : List (List Char)) :
    (dropSilent pieces).reverse.filterMap step? = pieces.reverse.filterMap step? := by
  rw [List.filterMap_reverse, List.filterMap_reverse]
  refine congrArg List.reverse ?_
  induction pieces with
  | nil => rfl
  | cons piece rest ih =>
    unfold dropSilent at *
    cases hstep : step? piece with
    | none => simpa [List.dropWhile_cons, hstep] using ih
    | some step => simp [hstep]

/-- A text is what may stand in front of the pieces of a path: the sign of the top, a
point with a separator or nothing after it, or else nothing. -/
def IsStart (start body : List Char) : Prop :=
  start = [] ∧ body.head? ≠ some '/' ∨ start = ['/'] ∨
    start = ['.'] ∧ ∀ c, body.head? = some c → c = '/'

theorem IsStart.movesOf_append {start body : List Char} (h : IsStart start body) :
    movesOf (start ++ body) = movesOf body := by
  rcases h with ⟨rfl, -⟩ | rfl | ⟨rfl, hbody⟩
  · rfl
  · exact movesOf_slash body
  · cases body with
    | nil => rfl
    | cons c body =>
      obtain rfl : c = '/' := hbody c rfl
      rw [Path.movesOf_append, movesOf_slash]
      rfl

theorem IsStart.of_prefix {start body body' : List Char} (h : IsStart start body)
    (hp : body' <+: body) : IsStart start body' := by
  have hhead : ∀ c, body'.head? = some c → body.head? = some c := by
    obtain ⟨more, rfl⟩ := hp
    intro c hc
    rw [List.head?_append, hc]
    rfl
  rcases h with ⟨rfl, hbody⟩ | rfl | ⟨rfl, hbody⟩
  · exact .inl ⟨rfl, fun hc => hbody (hhead _ hc)⟩
  · exact .inr (.inl rfl)
  · exact .inr (.inr ⟨rfl, fun c hc => hbody c (hhead c hc)⟩)

/-- The parent of a path, where its start has been told from its pieces. -/
theorem parent?_eq (p : Path) :
    ∃ start body, p.chars = start ++ body ∧ IsStart start body ∧
      p.parent? = match dropSilent (body.splitOn '/').reverse with
        | _ :: rest =>
          some ⟨String.ofList (start ++ ['/'].intercalate (dropSilent rest).reverse)⟩
        | [] => if start = ['.'] then some ⟨""⟩ else none := by
  unfold parent?
  split
  rename_i start body hsplit
  refine ⟨start, body, ?_, ?_, rfl⟩
  · split at hsplit <;> cases hsplit <;> simp_all
  · split at hsplit <;> cases hsplit
    · exact .inr (.inl rfl)
    · exact .inr (.inr ⟨rfl, by simp⟩)
    · exact .inr (.inr ⟨rfl, by simp⟩)
    · rename_i body' hroot _ _
      refine .inl ⟨rfl, fun hhead => ?_⟩
      obtain ⟨rest, hrest⟩ := List.head?_eq_some_iff.mp hhead
      exact hroot rest hrest

/-- What is left of the pieces of a path when its last step is taken away is their
beginning. -/
theorem dropSilent_begins {pieces rest : List (List Char)} {last : List Char}
    (h : dropSilent pieces.reverse = last :: rest) : (dropSilent rest).reverse <+: pieces := by
  rw [← List.reverse_suffix, List.reverse_reverse]
  have hsuffix : last :: rest <:+ pieces.reverse := h ▸ List.dropWhile_suffix _
  exact ((List.dropWhile_suffix _).trans (List.suffix_cons last rest)).trans hsuffix

theorem intercalate_dropSilent_begins {body last : List Char} {rest : List (List Char)}
    (h : dropSilent (body.splitOn '/').reverse = last :: rest) :
    ['/'].intercalate (dropSilent rest).reverse <+: body := by
  have hjoined := intercalate_begins ['/'] (dropSilent_begins h)
  rwa [List.intercalate_splitOn] at hjoined

/-- The parent of a path is written as the path begins. -/
theorem parent?_begins {p dir : Path} (h : p.parent? = some dir) : dir.chars <+: p.chars := by
  obtain ⟨start, body, hchars, -, hparent⟩ := p.parent?_eq
  rw [hparent] at h
  split at h
  · rename_i last rest hpieces
    cases h
    rw [chars, String.toList_ofList, hchars]
    exact (List.prefix_append_right_inj start).mpr (intercalate_dropSilent_begins hpieces)
  · split at h
    · cases h
      exact List.nil_prefix
    · cases h

/-- **A path is its parent and one move more.**  The parent is empty for a relative path
only. -/
theorem exists_parent? {p : Path} (hne : p.moves ≠ []) :
    ∃ dir, p.parent? = some dir ∧ (dir.text = "" → p.isAbsolute = false) ∧
      ∃ move, p.moves = dir.moves ++ [move] := by
  obtain ⟨start, body, hchars, hstart, hparent⟩ := p.parent?_eq
  have hmoves : p.moves = (body.splitOn '/').filterMap step? := by
    rw [moves, hchars, hstart.movesOf_append, movesOf]
  have hdropped := filterMap_dropSilent (body.splitOn '/').reverse
  rw [List.reverse_reverse, ← hmoves] at hdropped
  cases hpieces : dropSilent (body.splitOn '/').reverse with
  | nil =>
    rw [hpieces] at hdropped
    exact absurd hdropped.symm hne
  | cons last rest =>
    rw [hpieces] at hparent hdropped
    have hdir : (Path.mk (String.ofList
        (start ++ ['/'].intercalate (dropSilent rest).reverse))).chars =
          start ++ ['/'].intercalate (dropSilent rest).reverse := String.toList_ofList
    refine ⟨_, hparent, fun hempty => ?_, ?_⟩
    · -- a start would stand in the parent too
      have hnil : start = [] :=
        (List.append_eq_nil_iff.mp (hdir.symm.trans (congrArg String.toList hempty))).1
      subst hnil
      rcases hstart with ⟨-, hhead⟩ | hslash | ⟨hpoint, -⟩
      · unfold isAbsolute
        rw [hchars, List.nil_append]
        simpa using hhead
      · cases hslash
      · cases hpoint
    · -- the last piece is not silent, since the silent ones before it were dropped
      have hlast : (step? last).isNone = false := by
        have hhead := List.head?_dropWhile_not (fun piece => (step? piece).isNone)
          (body.splitOn '/').reverse
        rw [show (body.splitOn '/').reverse.dropWhile (fun piece => (step? piece).isNone) =
          last :: rest from hpieces] at hhead
        simpa using hhead
      obtain ⟨move, hmove⟩ := Option.isSome_iff_exists.mp (by simpa using hlast)
      refine ⟨move, ?_⟩
      have hpiecesOf : ∀ piece ∈ (dropSilent rest).reverse, '/' ∉ piece :=
        fun piece hpiece => not_mem_of_mem_splitOn piece ((dropSilent_begins hpieces).subset hpiece)
      have hbody := hstart.of_prefix (intercalate_dropSilent_begins hpieces)
      rw [← hdropped, moves, hdir, hbody.movesOf_append,
        movesOf_intercalate hpiecesOf, filterMap_dropSilent]
      simp [hmove]

/-! ## Names of files -/

/-- The name that a path ends in, where its last step leads into one. -/
def fileName? (p : Path) : Option String :=
  match p.components.getLast? with
  | some (.name text) => some text
  | _ => none

theorem getLast?_moves {p : Path} {name : String} (h : p.fileName? = some name) :
    p.moves.getLast? = some (.name name) := by
  obtain ⟨start, heq, hstart⟩ := p.components_eq
  have hlast : p.components.getLast? = some (.name name) := by
    unfold fileName? at h
    split at h
    · rename_i text hlast
      cases h
      exact hlast
    · cases h
  rw [heq, List.getLast?_append] at hlast
  show ((p.chars.splitOn '/').filterMap step?).getLast? = _
  cases hmoves : ((p.chars.splitOn '/').filterMap step?).getLast? with
  | some move =>
    rw [hmoves] at hlast
    exact hlast
  | none =>
    -- a step that says where the path starts leads into no name
    rw [hmoves] at hlast
    rcases hstart with rfl | rfl | rfl <;> cases hlast

theorem moves_ne_nil {p : Path} {name : String} (h : p.fileName? = some name) : p.moves ≠ [] := by
  intro hnil
  have hlast := getLast?_moves h
  rw [hnil] at hlast
  cases hlast

/-- The name of a file is one piece, and a path by itself. -/
theorem moves_fileName {p : Path} {name : String} (h : p.fileName? = some name) :
    (⟨name⟩ : Path).moves = [.name name] ∧ (⟨name⟩ : Path).isAbsolute = false := by
  obtain ⟨piece, hpiece, hstep⟩ := List.mem_filterMap.mp (List.mem_of_getLast? (getLast?_moves h))
  obtain ⟨rfl, -⟩ := toList_of_step? hstep
  have hslash : '/' ∉ name.toList := not_mem_of_mem_splitOn _ hpiece
  constructor
  · rw [moves, show (⟨name⟩ : Path).chars = name.toList from rfl, movesOf_piece hslash, hstep]
    rfl
  · unfold isAbsolute
    rw [show (⟨name⟩ : Path).chars = name.toList from rfl]
    cases hname : name.toList with
    | nil => rfl
    | cons c rest =>
      rw [hname] at hslash
      simpa using fun hc : c = '/' => hslash (hc ▸ List.mem_cons_self)

/-- The path is written with a directory before its last name. -/
def HasDirectory (p : Path) : Prop := ∃ dir, p.parent? = some dir ∧ dir.text ≠ ""

/-- **The name of a file, joined to the parent of its path, leads to the file.** -/
theorem place_join_parent? {p dir : Path} {name : String} (hname : p.fileName? = some name)
    (hdir : p.parent? = some dir) (hne : dir.text ≠ "") : (dir.join ⟨name⟩).place = p.place := by
  obtain ⟨hmoves, hrelative⟩ := moves_fileName hname
  have hlast := getLast?_moves hname
  obtain ⟨dir', hdir', -, move, hmove⟩ := exists_parent? (moves_ne_nil hname)
  obtain rfl : dir = dir' := Option.some.inj (hdir.symm.trans hdir')
  have habsolute : dir.isAbsolute = p.isAbsolute := by
    obtain ⟨c, rest, hchars⟩ := List.exists_cons_of_ne_nil (chars_ne_nil hne)
    obtain ⟨more, hmore⟩ := parent?_begins hdir
    unfold isAbsolute
    rw [← hmore, hchars]
    rfl
  have hmove' : move = .name name := by simpa [hmove] using hlast
  rw [place_eq_moves, place_eq_moves, moves_join hne hrelative, isAbsolute_join hne hrelative,
    hmoves, habsolute, hmove, hmove']

/-- The name of a file that is given without a directory, joined to an absolute path, leads
elsewhere than the name alone. -/
theorem place_join_ne {p dir : Path} {name : String} (hname : p.fileName? = some name)
    (hbare : ¬ p.HasDirectory) (hdir : dir.isAbsolute = true) :
    (dir.join ⟨name⟩).place ≠ p.place := by
  obtain ⟨parent, hparent, hrelative, -⟩ := exists_parent? (moves_ne_nil hname)
  have hempty : parent.text = "" := by
    by_contra hne
    exact hbare ⟨parent, hparent, hne⟩
  have hne : dir.text ≠ "" := by
    intro htext
    rw [show dir = ⟨""⟩ from congrArg Path.mk htext] at hdir
    cases hdir
  intro heq
  have habsolute := congrArg Place.absolute heq
  rw [place_eq_moves, place_eq_moves, isAbsolute_join hne (moves_fileName hname).2, hdir,
    hrelative hempty] at habsolute
  cases habsolute

end Path

end TaskOutline
