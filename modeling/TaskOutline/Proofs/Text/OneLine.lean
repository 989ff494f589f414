import TaskOutline.Proofs.Path.Parent
import TaskOutline.Proofs.Property.Values

/-! # Texts on one line

A text that is written into a line must not have a newline in it.  What is put together
from such texts has none, and neither has a piece of one.
-/
namespace TaskOutline

open Text

/-- A text without a newline. -/
def OneLine (s : String) : Prop := '\n' ∉ s.toList

@[simp] theorem oneLine_append {s t : String} : OneLine (s ++ t) ↔ OneLine s ∧ OneLine t := by
  simp [OneLine, String.toList_append, not_or]

theorem oneLine_ofList {cs : List Char} : OneLine (String.ofList cs) ↔ '\n' ∉ cs := by
  rw [OneLine, String.toList_ofList]

/-- A text that is given by its characters is looked at character by character. -/
theorem OneLine.of_chars {cs : List Char} (h : '\n' ∉ cs) : OneLine (String.ofList cs) :=
  oneLine_ofList.mpr h

theorem OneLine.of_subset {s t : String} (ht : OneLine t) (h : ∀ c ∈ s.toList, c ∈ t.toList) :
    OneLine s :=
  fun hmem => ht (h _ hmem)

theorem OneLine.of_isWord {s : String} (h : IsWord s.toList) : OneLine s :=
  fun hmem => absurd (h.solid _ hmem) (by decide)

theorem OneLine.intercalate {sep : String} {ws : List String} (hsep : OneLine sep)
    (hws : ∀ w ∈ ws, OneLine w) : OneLine (sep.intercalate ws) := by
  intro hmem
  rw [String.toList_intercalate] at hmem
  rcases mem_intercalate hmem with hmem | ⟨cs, hcs, hmem⟩
  · exact hsep hmem
  · obtain ⟨w, hw, rfl⟩ := List.mem_map.mp hcs
    exact hws w hw hmem

@[simp] theorem oneLine_natText (n : Nat) : OneLine (natText n) :=
  .of_isWord (by simpa [natText] using isWord_numeral n)

@[simp] theorem TaskId.oneLine_text (id : TaskId) : OneLine id.text :=
  .of_isWord id.isWord_text

/-! ## Pieces of a text -/

namespace Text

theorem mem_of_mem_splitOnP {p : Char → Bool} {cs : List Char} :
    ∀ piece ∈ cs.splitOnP p, ∀ c ∈ piece, c ∈ cs := by
  induction cs with
  | nil => simp [List.splitOnP_nil]
  | cons d cs ih =>
    rw [List.splitOnP_cons_eq_if_modifyHead]
    split
    · intro piece hpiece c hc
      rcases List.mem_cons.mp hpiece with rfl | hpiece
      · cases hc
      · exact List.mem_cons_of_mem d (ih piece hpiece c hc)
    · cases hsplit : cs.splitOnP p with
      | nil => simp
      | cons first rest =>
        rw [hsplit] at ih
        obtain ⟨hfirst, hrest⟩ := List.forall_mem_cons.mp ih
        intro piece hpiece c hc
        rcases List.mem_cons.mp hpiece with rfl | hpiece
        · exact (List.mem_cons.mp hc).elim (fun h => h ▸ List.mem_cons_self)
            fun h => List.mem_cons_of_mem d (hfirst c h)
        · exact List.mem_cons_of_mem d (hrest piece hpiece c hc)

theorem mem_of_mem_words {cs word : List Char} (h : word ∈ words cs) : ∀ c ∈ word, c ∈ cs :=
  mem_of_mem_splitOnP word (List.mem_filter.mp h).1

end Text

/-! ## Paths -/

namespace Path

theorem oneLine_join {p q : Path} (hp : OneLine p.text) (hq : OneLine q.text) :
    OneLine (p.join q).text := by
  have hslash : OneLine "/" := .of_chars (by decide)
  unfold join
  split
  · exact hq
  · split <;> simp [hp, hq, hslash]

theorem oneLine_parent? {p dir : Path} (hp : OneLine p.text) (h : p.parent? = some dir) :
    OneLine dir.text :=
  hp.of_subset fun _ hc => (parent?_begins h).subset hc

end Path

end TaskOutline
