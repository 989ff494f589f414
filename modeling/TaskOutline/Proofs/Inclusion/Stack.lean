import Mathlib.Data.Finset.Card
import TaskOutline.Proofs.Inclusion.Steps

/-! # The stack of an expansion

`Workspace.follow` is given the files that are being expanded, and goes into a file by
following its steps with one place more.  Here the same expansion is made move by move,
by a machine that has one stack of places for the whole run: going into a file puts its
place on the stack, and a job that is left behind the steps of the file takes a place
off.  Nothing else ties the two moves together, so that it has to be proved that the
stack is balanced.

A call is a list of steps at the front of what is to be done.  `Expansion.call_returns`
says that every call comes to an end, with the stack as it was and with the records and
reports that `follow` has for its steps.  Independently of that, each move keeps the
stack free of repetitions, with places of files on it and those it began with
(`Expansion.Sound.next`), so that the files bound its height.
-/
namespace TaskOutline

/-- What an expansion has to do. -/
inductive Job where
  | step (step : Step)
  /-- The steps of a file have been followed: its place is taken off the stack. -/
  | leave
deriving DecidableEq

/-- An expansion under way. -/
structure Expansion where
  /-- The places of the files that are being expanded, innermost first. -/
  stack : List Place
  /-- What is still to be done, in order. -/
  todo : List Job
  /-- The records so far. -/
  records : List Record
  /-- The reports so far. -/
  log : List Diagnostic

/-- The jobs of steps, before others. -/
def jobs (steps : List Step) (rest : List Job) : List Job := steps.map .step ++ rest

@[simp] theorem jobs_nil (rest : List Job) : jobs [] rest = rest := rfl

@[simp] theorem jobs_cons (step : Step) (steps : List Step) (rest : List Job) :
    jobs (step :: steps) rest = .step step :: jobs steps rest := rfl

theorem suffix_jobs (steps : List Step) (rest : List Job) : rest <:+ jobs steps rest :=
  List.suffix_append _ _

namespace Expansion

/-- An expansion that has not begun. -/
def start (stack : List Place) (steps : List Step) : Expansion := ⟨stack, jobs steps [], [], []⟩

section Moves

variable (w : Workspace) (dir : Path)

/-- Does the first job.  Without jobs the expansion stays as it is. -/
def next (e : Expansion) : Expansion :=
  match e.todo with
  | [] => e
  | .leave :: rest => { e with stack := e.stack.tail, todo := rest }
  | .step (.task record) :: rest => { e with todo := rest, records := e.records ++ [record] }
  | .step (.visit path location) :: rest =>
    let target := dir.join path
    if w.identity target ∈ e.stack then
      { e with todo := rest, log := e.log ++ [⟨.error, some location, .cyclicInclude target⟩] }
    else match w.read target with
      | .error reason =>
        { e with
          todo := rest
          log := e.log ++ [⟨.error, some location, .missingInclude target reason⟩] }
      | .ok text =>
        let blocks := readDocument target.text text
        { e with
          stack := w.identity target :: e.stack
          todo := jobs (blocks.value.flatMap Block.steps) (.leave :: rest)
          log := e.log ++ blocks.log }

/-- The expansion after that many moves. -/
def after : (moves : Nat) → Expansion → Expansion
  | 0, e => e
  | moves + 1, e => after moves (e.next w dir)

end Moves

variable {w : Workspace} {dir : Path}

theorem next_of_leave {e : Expansion} {rest : List Job} (htodo : e.todo = .leave :: rest) :
    e.next w dir = { e with stack := e.stack.tail, todo := rest } := by
  rw [next, htodo]

theorem next_of_task {e : Expansion} {record : Record} {rest : List Job}
    (htodo : e.todo = .step (.task record) :: rest) :
    e.next w dir = { e with todo := rest, records := e.records ++ [record] } := by
  rw [next, htodo]

theorem next_of_cyclic {e : Expansion} {path : Path} {location : Location} {rest : List Job}
    (htodo : e.todo = .step (.visit path location) :: rest)
    (h : w.identity (dir.join path) ∈ e.stack) :
    e.next w dir = { e with
      todo := rest
      log := e.log ++ [⟨.error, some location, .cyclicInclude (dir.join path)⟩] } := by
  rw [next, htodo]
  exact if_pos h

theorem next_of_missing {e : Expansion} {path : Path} {location : Location} {rest : List Job}
    {reason : String} (htodo : e.todo = .step (.visit path location) :: rest)
    (h : w.identity (dir.join path) ∉ e.stack) (hread : w.read (dir.join path) = .error reason) :
    e.next w dir = { e with
      todo := rest
      log := e.log ++ [⟨.error, some location, .missingInclude (dir.join path) reason⟩] } := by
  rw [next, htodo]
  dsimp only
  rw [if_neg h, hread]

theorem next_of_enter {e : Expansion} {path : Path} {location : Location} {rest : List Job}
    {text : String} (htodo : e.todo = .step (.visit path location) :: rest)
    (h : w.identity (dir.join path) ∉ e.stack) (hread : w.read (dir.join path) = .ok text) :
    e.next w dir = { e with
      stack := w.identity (dir.join path) :: e.stack
      todo := jobs ((readDocument (dir.join path).text text).value.flatMap Block.steps)
        (.leave :: rest)
      log := e.log ++ (readDocument (dir.join path).text text).log } := by
  rw [next, htodo]
  dsimp only
  rw [if_neg h, hread]

/-! ## Every call returns -/

/-- Moves lead from one state to another, and each state before the last has a property. -/
inductive Leads (w : Workspace) (dir : Path) (P : Expansion → Prop) :
    Expansion → Expansion → Prop where
  | refl (e : Expansion) : Leads w dir P e e
  | move {e e' : Expansion} : P e → Leads w dir P (e.next w dir) e' → Leads w dir P e e'

theorem Leads.trans {P : Expansion → Prop} {e e' e'' : Expansion} (h : Leads w dir P e e')
    (h' : Leads w dir P e' e'') : Leads w dir P e e'' := by
  induction h with
  | refl => exact h'
  | move hP _ ih => exact .move hP (ih h')

theorem Leads.imp {P Q : Expansion → Prop} {e e' : Expansion} (h : Leads w dir P e e')
    (hPQ : ∀ e, P e → Q e) : Leads w dir Q e e' := by
  induction h with
  | refl e => exact .refl e
  | move hP _ ih => exact .move (hPQ _ hP) ih

theorem Leads.exists_after {P : Expansion → Prop} {e e' : Expansion} (h : Leads w dir P e e') :
    ∃ n, e.after w dir n = e' ∧ ∀ k < n, P (e.after w dir k) := by
  induction h with
  | refl e => exact ⟨0, rfl, fun k hk => absurd hk (Nat.not_lt_zero k)⟩
  | move hP _ ih =>
    obtain ⟨n, hn, hbefore⟩ := ih
    refine ⟨n + 1, hn, fun k hk => ?_⟩
    cases k with
    | zero => exact hP
    | succ k => exact hbefore k (Nat.lt_of_succ_lt_succ hk)

/-- A call is not over: there are jobs in front of those that wait for it, and the
stack has on it what was there when it began. -/
def InCall (stack : List Place) (rest : List Job) (e : Expansion) : Prop :=
  (∃ job more, e.todo = job :: more ∧ rest <:+ more) ∧ stack <:+ e.stack

theorem InCall.of_todo {e : Expansion} {job : Job} {more rest : List Job}
    (htodo : e.todo = job :: more) (hrest : rest <:+ more) : InCall e.stack rest e :=
  ⟨⟨job, more, htodo, hrest⟩, List.suffix_rfl⟩

/-- In a call from within a call one is in both. -/
theorem InCall.outer {stack inner : List Place} {rest more : List Job} {e : Expansion}
    (h : InCall inner more e) (hstack : stack <:+ inner) (hrest : rest <:+ more) :
    InCall stack rest e := by
  obtain ⟨⟨job, jobs, htodo, hmore⟩, hinner⟩ := h
  exact ⟨⟨job, jobs, htodo, hrest.trans hmore⟩, hstack.trans hinner⟩

/-- The state when a call returns: its steps have been followed, and the stack is as it
was. -/
def returned (w : Workspace) (dir : Path) (e : Expansion) (steps : List Step) (rest : List Job) :
    Expansion where
  stack := e.stack
  todo := rest
  records := e.records ++ (w.follow dir e.stack steps).value
  log := e.log ++ (w.follow dir e.stack steps).log

/-- A call of steps with these places on the stack returns, whatever waits for it. -/
def Returns (w : Workspace) (dir : Path) (stack : List Place) (steps : List Step) : Prop :=
  ∀ (e : Expansion) (rest : List Job), e.stack = stack → e.todo = jobs steps rest →
    Leads w dir (InCall stack rest) e (e.returned w dir steps rest)

/-- **Every call returns**, with the stack as it was and with what `follow` has for its
steps. -/
theorem call_returns (w : Workspace) (dir : Path) (stack : List Place) (steps : List Step) :
    Returns w dir stack steps := by
  -- along the recursion of `follow`, in which a file that is gone into is a call of its own
  fun_induction w.follow dir stack steps with
  | case1 stack =>
    rintro e rest - htodo
    have hreturned : e.returned w dir [] rest = e := by
      obtain ⟨stack, todo, records, log⟩ := e
      obtain rfl : todo = rest := htodo
      simp [returned, Workspace.follow_nil]
    rw [hreturned]
    exact .refl e
  | case2 stack record steps ih =>
    rintro e rest rfl htodo
    rw [jobs_cons] at htodo
    have hnext : e.next w dir = _ := next_of_task htodo
    have hrest := ih (e.next w dir) rest (by rw [hnext]) (by rw [hnext])
    have hreturned : (e.next w dir).returned w dir steps rest =
        e.returned w dir (.task record :: steps) rest := by
      simp [returned, hnext, Workspace.follow_task]
    exact .move (.of_todo htodo (suffix_jobs steps rest)) (hreturned ▸ hrest)
  | case3 stack path location steps target hmem ih =>
    rintro e rest rfl htodo
    rw [jobs_cons] at htodo
    have hnext := next_of_cyclic htodo hmem
    have hrest := ih (e.next w dir) rest (by rw [hnext]) (by rw [hnext])
    have hreturned : (e.next w dir).returned w dir steps rest =
        e.returned w dir (.visit path location :: steps) rest := by
      simp [returned, hnext, Workspace.follow_of_mem location steps hmem]
    exact .move (.of_todo htodo (suffix_jobs steps rest)) (hreturned ▸ hrest)
  | case4 stack path location steps target hmem reason hread ih =>
    rintro e rest rfl htodo
    rw [jobs_cons] at htodo
    have hnext := next_of_missing htodo hmem hread
    have hrest := ih (e.next w dir) rest (by rw [hnext]) (by rw [hnext])
    have hreturned : (e.next w dir).returned w dir steps rest =
        e.returned w dir (.visit path location :: steps) rest := by
      simp [returned, hnext, Workspace.follow_of_error location steps hmem hread]
    exact .move (.of_todo htodo (suffix_jobs steps rest)) (hreturned ▸ hrest)
  | case5 stack path location steps target hmem text hread ih₁ ih₂ =>
    rintro e rest rfl htodo
    rw [jobs_cons] at htodo
    have hnext := next_of_enter htodo hmem hread
    -- the file is a call from within this one, and the job behind it takes its place off
    let inner := (readDocument target.text text).value.flatMap Block.steps
    let between := (e.next w dir).returned w dir inner (.leave :: jobs steps rest)
    have hinside : Leads w dir (InCall e.stack rest) (e.next w dir) between :=
      (ih₁ _ (e.next w dir) (.leave :: jobs steps rest) (by rw [hnext]) (by rw [hnext])).imp
        fun _ h => h.outer (List.suffix_cons _ _)
          ((suffix_jobs steps rest).trans (List.suffix_cons _ _))
    have hleave : between.next w dir = { between with
        stack := between.stack.tail, todo := jobs steps rest } := next_of_leave rfl
    have hstack : between.stack = w.identity target :: e.stack := by
      show (e.next w dir).stack = _
      rw [hnext]
    have hlast := ih₂ (between.next w dir) rest (by rw [hleave, hstack]; rfl) (by rw [hleave])
    have hreturned : (between.next w dir).returned w dir steps rest =
        e.returned w dir (.visit path location :: steps) rest := by
      rw [returned, returned, hleave, hstack, Workspace.follow_of_ok location steps hmem hread]
      simp [between, inner, returned, hnext, target]
    have hbetween : InCall e.stack rest between :=
      ⟨⟨.leave, jobs steps rest, rfl, suffix_jobs steps rest⟩, hstack ▸ List.suffix_cons _ _⟩
    refine .move (.of_todo htodo (suffix_jobs steps rest)) ?_
    exact hinside.trans (.move hbetween (hreturned ▸ hlast))

/-! ## What is on the stack -/

/-- What a move does to the stack: nothing, or it takes a place off, or it puts on the
place of a file that was not there. -/
theorem stack_next (w : Workspace) (dir : Path) (e : Expansion) :
    (e.next w dir).stack = e.stack ∨ (e.next w dir).stack = e.stack.tail ∨
      ∃ place ∈ w.places, place ∉ e.stack ∧ (e.next w dir).stack = place :: e.stack := by
  cases htodo : e.todo with
  | nil => exact .inl (by rw [next, htodo])
  | cons job rest =>
    match job with
    | .leave => exact .inr (.inl (by rw [next_of_leave htodo]))
    | .step (.task record) => exact .inl (by rw [next_of_task htodo])
    | .step (.visit path location) =>
      by_cases hmem : w.identity (dir.join path) ∈ e.stack
      · exact .inl (by rw [next_of_cyclic htodo hmem])
      · cases hread : w.read (dir.join path) with
        | error reason => exact .inl (by rw [next_of_missing htodo hmem hread])
        | ok text =>
          refine .inr (.inr ⟨w.identity (dir.join path), w.identity_mem hread, hmem, ?_⟩)
          rw [next_of_enter htodo hmem hread]

/-- A stack as an expansion has it that began with `bottom` on it: no place stands twice
on it, and each is that of a file or was there at the beginning. -/
structure Sound (w : Workspace) (bottom : List Place) (e : Expansion) : Prop where
  nodup : e.stack.Nodup
  known : ∀ place ∈ e.stack, place ∈ bottom ∨ place ∈ w.places

variable {bottom : List Place} {e : Expansion}

/-- **A move keeps the stack sound.** -/
theorem Sound.next (h : Sound w bottom e) : Sound w bottom (e.next w dir) := by
  rcases stack_next w dir e with heq | heq | ⟨place, hplace, hnew, heq⟩
  · exact ⟨heq ▸ h.nodup, heq ▸ h.known⟩
  · exact ⟨heq ▸ h.nodup.tail, fun place hmem => h.known place (List.mem_of_mem_tail (heq ▸ hmem))⟩
  · refine ⟨heq ▸ List.nodup_cons.mpr ⟨hnew, h.nodup⟩, fun p hp => ?_⟩
    rw [heq] at hp
    rcases List.mem_cons.mp hp with rfl | hp
    · exact .inr hplace
    · exact h.known p hp

/-- **A run keeps the stack sound.** -/
theorem Sound.after (h : Sound w bottom e) (n : Nat) : Sound w bottom (e.after w dir n) := by
  induction n generalizing e with
  | zero => exact h
  | succ n ih => exact ih h.next

theorem sound_start (hbottom : bottom.Nodup) (steps : List Step) :
    Sound w bottom (start bottom steps) :=
  ⟨hbottom, fun _ h => .inl h⟩

/-- A sound stack has room for what it began with and for each file once. -/
theorem Sound.length_le (h : Sound w bottom e) :
    e.stack.length ≤ bottom.length + w.places.toFinset.card := by
  have hsub : e.stack.toFinset ⊆ bottom.toFinset ∪ w.places.toFinset := by
    intro place hplace
    rw [Finset.mem_union, List.mem_toFinset, List.mem_toFinset]
    exact h.known place (List.mem_toFinset.mp hplace)
  calc e.stack.length = e.stack.toFinset.card := (List.toFinset_card_of_nodup h.nodup).symm
    _ ≤ (bottom.toFinset ∪ w.places.toFinset).card := Finset.card_le_card hsub
    _ ≤ bottom.toFinset.card + w.places.toFinset.card := Finset.card_union_le _ _
    _ ≤ bottom.length + w.places.toFinset.card :=
      Nat.add_le_add_right (List.toFinset_card_le _) _

theorem after_add (m n : Nat) (e : Expansion) :
    e.after w dir (m + n) = (e.after w dir m).after w dir n := by
  induction m generalizing e with
  | zero => rw [Nat.zero_add, after]
  | succ m ih => rw [Nat.succ_add, after, after, ih]

end Expansion

namespace Workspace

variable (w : Workspace) (dir : Path) (root : Option Path) (blocks : List Block)

/-- The expansion of blocks, before its first move. -/
def expansion : Expansion :=
  .start (root.map w.identity).toList (blocks.flatMap Block.steps)

theorem sound_expansion (n : Nat) :
    ((w.expansion root blocks).after w dir n).Sound w (root.map w.identity).toList := by
  have hbottom : (root.map w.identity).toList.Nodup := by cases root <;> simp
  exact (Expansion.sound_start hbottom _).after n

end Workspace

/-- **Every expansion comes to an end, and its stack is balanced.**  Whatever is on the
shelf, the moves of an expansion lead to a state in which nothing is left to be done,
and the records and reports are those of `Workspace.expand`.  On the way no place stands
twice on the stack, which is never higher than the files are many, and one more if the
blocks come from a file.  A call at any time returns, with the stack as the call found
it; until then the stack has on it what it had at the call. -/
theorem Workspace.expand_balanced (s : Shelf) (cwd dir : Path) (root : Option Path)
    (blocks : List Block) :
    let w := s.workspace cwd
    let e := w.expansion root blocks
    (∃ n, (e.after w dir n).todo = [] ∧ (e.after w dir n).stack = e.stack ∧
      (e.after w dir n).records = (w.expand dir root blocks).value ∧
      (e.after w dir n).log = (w.expand dir root blocks).log) ∧
    (∀ n, (e.after w dir n).stack.Nodup ∧
      (e.after w dir n).stack.length ≤
        (if root.isSome then 1 else 0) + (s.files.map Prod.fst).toFinset.card) ∧
    ∀ n called rest, (e.after w dir n).todo = jobs called rest →
      ∃ m, (e.after w dir (n + m)).todo = rest ∧
        (e.after w dir (n + m)).stack = (e.after w dir n).stack ∧
        ∀ k < m, Expansion.InCall (e.after w dir n).stack rest (e.after w dir (n + k)) := by
  intro w e
  refine ⟨?_, fun n => ⟨(w.sound_expansion dir root blocks n).nodup, ?_⟩, ?_⟩
  · -- the whole expansion is a call that nothing waits for
    obtain ⟨n, hn, -⟩ := (Expansion.call_returns w dir _ _ e [] rfl rfl).exists_after
    refine ⟨n, ?_⟩
    rw [hn]
    exact ⟨rfl, rfl, List.nil_append _, List.nil_append _⟩
  · have hlength : (root.map w.identity).toList.length = if root.isSome then 1 else 0 := by
      cases root <;> rfl
    rw [← hlength]
    exact (w.sound_expansion dir root blocks n).length_le
  · intro n called rest htodo
    obtain ⟨m, hm, hbefore⟩ :=
      (Expansion.call_returns w dir _ called (e.after w dir n) rest rfl htodo).exists_after
    refine ⟨m, ?_, ?_, fun k hk => ?_⟩
    · rw [Expansion.after_add, hm]
      rfl
    · rw [Expansion.after_add, hm]
      rfl
    · rw [Expansion.after_add]
      exact hbefore k hk

end TaskOutline
