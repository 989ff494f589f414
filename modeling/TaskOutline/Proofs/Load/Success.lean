import TaskOutline.Load
import TaskOutline.Proofs.Outline.Entries

/-! # Success is the absence of errors

Loading has three ways out: the records are incomplete because of an error that was
reported before, there are no records at all, or the outline is built and checked.
Each has an equation here (`load_of_errors`, `load_of_empty`, `load_of_complete`),
and `load_cases` says that every run goes one of these ways.

Main statement: a document comes out exactly when no error has been reported, then
or before, and a report has text exactly when its run has succeeded.
-/
namespace TaskOutline

/-! ## The three ways out -/

@[simp] theorem hasErrors_append (xs ys : List Diagnostic) :
    hasErrors (xs ++ ys) = (hasErrors xs || hasErrors ys) :=
  List.any_append

theorem hasErrors_eq_false_iff {ds : List Diagnostic} :
    hasErrors ds = false ↔ ∀ d ∈ ds, d.isError = false := by
  simp [hasErrors]

namespace Source

variable {source : Source} {w : Workspace} {prior : List Diagnostic}

/-- After an error the outline is built only to report repeated identifiers. -/
theorem load_of_errors (h : hasErrors (prior ++ (source.records w).log) = true) :
    source.load w prior = (none, prior ++ (source.records w).log ++
      Roster.repeatReports (source.records w).value) := by
  unfold load
  rw [if_pos h, ← Outline.log_build]

/-- The error about a source without records. -/
def emptyReport (source : Source) : Diagnostic :=
  ⟨.error, none, .malformed (.noTasks source.origin)⟩

theorem load_of_empty (h : hasErrors (prior ++ (source.records w).log) = false)
    (hr : (source.records w).value = []) :
    source.load w prior =
      (none, prior ++ (source.records w).log ++ [source.emptyReport]) := by
  unfold load
  rw [if_neg (by simp [h]), if_pos (by simp [hr])]
  rfl

/-- What is reported when the outline of a source is built and checked. -/
def completeLog (source : Source) (w : Workspace) (prior : List Diagnostic) : List Diagnostic :=
  prior ++ (source.records w).log ++ Roster.repeatReports (source.records w).value ++
    (Dependencies.check (Outline.ofRecords (source.records w).value)).log

/-- The document of a source whose outline is built and checked. -/
def completeDocument (source : Source) (w : Workspace) : Document :=
  ⟨Outline.ofRecords (source.records w).value,
    (Dependencies.check (Outline.ofRecords (source.records w).value)).value⟩

theorem load_of_complete (h : hasErrors (prior ++ (source.records w).log) = false)
    (hr : (source.records w).value ≠ []) :
    source.load w prior =
      (if hasErrors (source.completeLog w prior) then none else some (source.completeDocument w),
        source.completeLog w prior) := by
  unfold load completeLog
  rw [if_neg (by simp [h]), if_neg (by simpa using hr), ← Outline.log_build]
  rfl

/-- Every run goes one of the three ways. -/
theorem load_cases (source : Source) (w : Workspace) (prior : List Diagnostic) :
    (hasErrors (prior ++ (source.records w).log) = true ∧
      source.load w prior = (none, prior ++ (source.records w).log ++
        Roster.repeatReports (source.records w).value)) ∨
    (hasErrors (prior ++ (source.records w).log) = false ∧ (source.records w).value = [] ∧
      source.load w prior = (none, prior ++ (source.records w).log ++ [source.emptyReport])) ∨
    (hasErrors (prior ++ (source.records w).log) = false ∧ (source.records w).value ≠ [] ∧
      source.load w prior =
        (if hasErrors (source.completeLog w prior) then none
          else some (source.completeDocument w), source.completeLog w prior)) := by
  by_cases h : hasErrors (prior ++ (source.records w).log) = true
  · exact .inl ⟨h, load_of_errors h⟩
  · rw [Bool.not_eq_true] at h
    by_cases hr : (source.records w).value = []
    · exact .inr (.inl ⟨h, hr, load_of_empty h hr⟩)
    · exact .inr (.inr ⟨h, hr, load_of_complete h hr⟩)

/-- **A document comes out exactly when nothing that was reported is an error.** -/
theorem isSome_load (source : Source) (w : Workspace) (prior : List Diagnostic) :
    (source.load w prior).1.isSome = !hasErrors (source.load w prior).2 := by
  rcases source.load_cases w prior with ⟨h, hload⟩ | ⟨-, -, hload⟩ | ⟨-, -, hload⟩
  · rw [hload, hasErrors_append, h]
    rfl
  · rw [hload]
    simp [hasErrors, emptyReport, Diagnostic.isError]
  · rw [hload]
    cases hasErrors (source.completeLog w prior) <;> rfl

/-- A document that comes out is that of the records, and they are not none. -/
theorem load_eq_some {doc : Document} {log : List Diagnostic}
    (h : source.load w prior = (some doc, log)) :
    (source.records w).value ≠ [] ∧ doc = source.completeDocument w ∧
      log = source.completeLog w prior ∧ hasErrors log = false := by
  -- only the last way gives a document
  rcases source.load_cases w prior with ⟨-, hload⟩ | ⟨-, -, hload⟩ | ⟨-, hr, hload⟩
  · cases hload.symm.trans h
  · cases hload.symm.trans h
  · obtain ⟨hdoc, hlog⟩ := Prod.mk.inj (hload.symm.trans h)
    cases hc : hasErrors (source.completeLog w prior) with
    | true => simp [hc] at hdoc
    | false =>
      simp only [hc, Bool.false_eq_true, if_false, Option.some.injEq] at hdoc
      exact ⟨hr, hdoc.symm, hlog.symm, hlog ▸ hc⟩

theorem prefix_load (source : Source) (w : Workspace) (prior : List Diagnostic) :
    prior <+: (source.load w prior).2 := by
  rcases source.load_cases w prior with ⟨-, hload⟩ | ⟨-, -, hload⟩ | ⟨-, -, hload⟩
  · rw [hload]
    exact ⟨_, (List.append_assoc _ _ _).symm⟩
  · rw [hload]
    exact ⟨_, (List.append_assoc _ _ _).symm⟩
  · rw [hload, completeLog, List.append_assoc, List.append_assoc]
    exact List.prefix_append _ _

end Source

/-! ## Reports with text -/

theorem unlines_cons_ne_empty (line : String) (ls : List String) : unlines (line :: ls) ≠ "" := by
  intro h
  have := congrArg String.toList h
  simp [unlines, endLine] at this

namespace Exporter

/-- A report about an outline in which a task is declared is not empty. -/
theorem write_ne_empty (e : Exporter) {t : Outline} (h : t.records ≠ []) (g : Dependencies)
    (o : Options) : e.write t g o ≠ "" := by
  cases e with
  | calendar => simp [write, hasContents, hasCalendar, Agenda.text, unlines_cons_ne_empty]
  | simple => simp [write, hasContents, Contents.text, endLine]
  | full => simp [write, hasContents, Contents.text, endLine]
  | plain =>
    obtain ⟨r, rest, hr⟩ := List.exists_cons_of_ne_nil h
    have htext : r.text ≠ "" := by
      simp [Record.text, unlines_cons_ne_empty]
    intro hnil
    rw [write, Outline.plainText, hr] at hnil
    simp at hnil
    exact htext hnil.1

end Exporter

namespace Source

variable {source : Source} {w : Workspace}

/-- A run that gives a document writes about it. -/
theorem render_of_load {doc : Document} {log : List Diagnostic}
    (h : source.load w [] = (some doc, log)) (e : Exporter) (o : Options) :
    source.render w e o = ⟨e.write doc.outline doc.dependencies o, log⟩ := by
  simp [render, h]

theorem render_of_load_none {log : List Diagnostic} (h : source.load w [] = (none, log))
    (e : Exporter) (o : Options) : source.render w e o = ⟨"", log⟩ := by
  simp [render, h]

theorem text_ne_empty_of_load {doc : Document} {log : List Diagnostic}
    (h : source.load w [] = (some doc, log)) (e : Exporter) (o : Options) :
    (source.render w e o).text ≠ "" := by
  obtain ⟨hr, rfl, -, -⟩ := load_eq_some h
  rw [render_of_load h]
  refine Exporter.write_ne_empty e ?_ _ o
  show (Outline.ofRecords _).records ≠ []
  rw [Outline.records_ofRecords]
  exact Roster.kept_ne_nil hr

/-- **Success is exactly the absence of errors.**  Loading adds to what was reported
before and takes nothing back; a document comes out exactly when no error is among
all that.  So a run has succeeded exactly when its report has text, and a failed run
has none. -/
theorem success_iff_no_error (source : Source) (w : Workspace) (prior : List Diagnostic) :
    (prior <+: (source.load w prior).2 ∧
      ((source.load w prior).1.isSome = true ↔
        ∀ d ∈ (source.load w prior).2, d.severity ≠ .error)) ∧
    ∀ (e : Exporter) (o : Options),
      ((source.render w e o).isSuccess = true ↔ (source.render w e o).text ≠ "") ∧
        ((source.render w e o).isSuccess = false → (source.render w e o).text = "") := by
  refine ⟨⟨prefix_load source w prior, ?_⟩, fun e o => ?_⟩
  · rw [isSome_load, Bool.not_eq_true', hasErrors_eq_false_iff]
    simp [Diagnostic.isError]
  · have hsuccess : (source.render w e o).isSuccess = (source.load w []).1.isSome := by
      rw [isSome_load]
      cases h : source.load w [] with
      | mk doc log =>
        cases doc with
        | none => rw [render_of_load_none h]; rfl
        | some doc => rw [render_of_load h]; rfl
    rw [hsuccess]
    cases h : source.load w [] with
    | mk doc log =>
      cases doc with
      | none =>
        rw [render_of_load_none h]
        simp
      | some doc => simp [text_ne_empty_of_load h e o]

end Source

end TaskOutline
