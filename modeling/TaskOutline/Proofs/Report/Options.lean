import Mathlib.Data.List.Forall2
import Mathlib.Data.List.TakeWhile
import TaskOutline.Report.Exporter
import TaskOutline.Report.Options

/-! # What a pair sets

A pair that can be applied names a flag and gives it a setting (`Options.Sets`); any other
is refused, for the first thing that is wrong with it (`Options.Refused`).  Pairs can be
applied in a row when each of them can be applied by itself, and what comes of it is what
their settings make of the options, one after the other (`Options.applyAll_eq_ok_iff`).
-/
namespace TaskOutline

/-- An exporter is found by its name, in any ASCII case. -/
theorem Exporter.ofTextFolded?_eq_some_iff {s : String} {e : Exporter} :
    ofTextFolded? s = some e ↔ Text.fold s.toList = e.text.toList := by
  constructor
  · intro h
    have hname := List.find?_some h
    exact (beq_iff_eq.mp hname).symm
  · intro h
    unfold ofTextFolded?
    rw [h]
    cases e <;> decide

theorem Flag.ofText?_eq_some_iff {s : String} {flag : Flag} :
    ofText? s = some flag ↔ s = flag.text := by
  constructor
  · intro h
    have hname := List.find?_some h
    exact (beq_iff_eq.mp hname).symm
  · rintro rfl
    cases flag <;> decide

theorem Flag.ofText?_eq_none_iff {s : String} : ofText? s = none ↔ ∀ flag : Flag, s ≠ flag.text := by
  rw [Option.eq_none_iff_forall_ne_some]
  exact forall_congr' fun flag => not_congr ofText?_eq_some_iff

namespace Options

/-- The pair has the form `key=value` up to blanks, where the key is the name of the flag
and the value one of the words for its setting, in any ASCII case. -/
def Sets (pair : String) (flag : Flag) (on : Bool) : Prop :=
  ∃ key value, pair.toList = key ++ '=' :: value ∧ '=' ∉ key ∧
    Text.trim key = flag.text.toList ∧
    String.ofList (Text.fold (Text.trim value)) ∈ if on then onWords else offWords

theorem cut?_eq_some_iff {cs key value : List Char} :
    cut? cs = some (key, value) ↔ cs = key ++ '=' :: value ∧ '=' ∉ key := by
  unfold cut?
  constructor
  · intro h
    split at h
    · cases h
    · rename_i c rest hdrop
      obtain ⟨rfl, rfl⟩ := Prod.mk.inj (Option.some.inj h)
      have hhead := List.head?_dropWhile_not (· ≠ '=') cs
      rw [hdrop] at hhead
      obtain rfl : c = '=' := by simpa using hhead
      refine ⟨?_, fun hmem => ?_⟩
      · rw [← hdrop, List.takeWhile_append_dropWhile]
      · simpa using List.mem_takeWhile_imp hmem
  · rintro ⟨rfl, hkey⟩
    have hall : ∀ c ∈ key, decide (c ≠ '=') = true := by
      intro c hc
      simpa using fun heq : c = '=' => hkey (heq ▸ hc)
    rw [List.dropWhile_append_of_pos hall, List.takeWhile_append_of_pos hall]
    simp

theorem cut?_eq_none_iff {cs : List Char} : cut? cs = none ↔ '=' ∉ cs := by
  have hdrop : cs.dropWhile (· ≠ '=') = [] ↔ '=' ∉ cs := by
    rw [List.dropWhile_eq_nil_iff]
    constructor
    · intro hall hmem
      simpa using hall '=' hmem
    · intro hnot c hc
      simpa using fun heq : c = '=' => hnot (heq ▸ hc)
  rw [← hdrop, cut?]
  cases cs.dropWhile (· ≠ '=') <;> simp

theorem readSwitch?_eq_some_iff {s : String} {on : Bool} :
    readSwitch? s = some on ↔
      String.ofList (Text.fold s.toList) ∈ if on then onWords else offWords := by
  have hapart : ∀ word ∈ offWords, word ∉ onWords := by decide
  unfold readSwitch?
  generalize String.ofList (Text.fold s.toList) = word
  by_cases hon : word ∈ onWords
  · have hoff : word ∉ offWords := fun hoff => hapart word hoff hon
    cases on <;> simp [hon, hoff]
  · by_cases hoff : word ∈ offWords <;> cases on <;> simp [hon, hoff]

theorem readSwitch?_eq_none_iff {s : String} :
    readSwitch? s = none ↔
      ∀ on : Bool, String.ofList (Text.fold s.toList) ∉ if on then onWords else offWords := by
  rw [Option.eq_none_iff_forall_ne_some]
  exact forall_congr' fun on => not_congr readSwitch?_eq_some_iff

/-- **A pair is read exactly if it sets a flag.** -/
theorem readPair_eq_ok_iff {pair : String} {flag : Flag} {on : Bool} :
    readPair pair = .ok (flag, on) ↔ Sets pair flag on := by
  unfold readPair Sets
  constructor
  · intro h
    split at h
    · cases h
    · rename_i key value hcut
      obtain ⟨hpair, hkey⟩ := cut?_eq_some_iff.mp hcut
      dsimp only at h
      split at h
      · cases h
      · rename_i flag' hflag
        split at h
        · cases h
        · rename_i on' hon
          obtain ⟨rfl, rfl⟩ := Prod.mk.inj (Except.ok.inj h)
          rw [Flag.ofText?_eq_some_iff] at hflag
          rw [readSwitch?_eq_some_iff, String.toList_ofList] at hon
          refine ⟨key, value, hpair, hkey, ?_, hon⟩
          rw [← hflag, String.toList_ofList]
  · rintro ⟨key, value, hpair, hkey, hflag, hon⟩
    have hname : Flag.ofText? (String.ofList (Text.trim key)) = some flag :=
      Flag.ofText?_eq_some_iff.mpr (by rw [hflag, String.ofList_toList])
    have hswitch : readSwitch? (String.ofList (Text.trim value)) = some on :=
      readSwitch?_eq_some_iff.mpr (by rwa [String.toList_ofList])
    rw [cut?_eq_some_iff.mpr ⟨hpair, hkey⟩]
    simp only [hname, hswitch]

/-- Why a pair sets nothing: there is no `=` in it, or no flag has the name that stands before
the first one, or what follows is none of the words for a setting. -/
inductive Refused (pair : String) : OptionError → Prop where
  | malformed : '=' ∉ pair.toList → Refused pair (.malformed pair)
  | unknownKey {key value : List Char} : pair.toList = key ++ '=' :: value → '=' ∉ key →
      (∀ flag : Flag, Text.trim key ≠ flag.text.toList) →
      Refused pair (.unknownKey (String.ofList (Text.trim key)))
  | invalidValue {key value : List Char} {flag : Flag} : pair.toList = key ++ '=' :: value →
      '=' ∉ key → Text.trim key = flag.text.toList →
      (∀ on : Bool,
        String.ofList (Text.fold (Text.trim value)) ∉ if on then onWords else offWords) →
      Refused pair (.invalidValue flag.text (String.ofList (Text.trim value)))

/-- **A pair is refused for the first thing that is wrong with it.** -/
theorem readPair_eq_error_iff {pair : String} {e : OptionError} :
    readPair pair = .error e ↔ Refused pair e := by
  unfold readPair
  constructor
  · intro h
    split at h
    · rename_i hcut
      obtain rfl := Except.error.inj h
      exact .malformed (cut?_eq_none_iff.mp hcut)
    · rename_i key value hcut
      obtain ⟨hpair, hkey⟩ := cut?_eq_some_iff.mp hcut
      dsimp only at h
      split at h
      · rename_i hnone
        obtain rfl := Except.error.inj h
        refine .unknownKey hpair hkey fun flag heq => ?_
        exact Flag.ofText?_eq_none_iff.mp hnone flag (by rw [heq, String.ofList_toList])
      · rename_i flag hflag
        split at h
        · rename_i hnone
          obtain rfl := Except.error.inj h
          rw [Flag.ofText?_eq_some_iff] at hflag
          rw [readSwitch?_eq_none_iff, String.toList_ofList] at hnone
          rw [hflag]
          refine .invalidValue hpair hkey ?_ hnone
          rw [← hflag, String.toList_ofList]
        · cases h
  · intro h
    cases h with
    | malformed hnone => rw [cut?_eq_none_iff.mpr hnone]
    | @unknownKey key value hpair hkey hflag =>
      have hname : Flag.ofText? (String.ofList (Text.trim key)) = none :=
        Flag.ofText?_eq_none_iff.mpr fun flag heq =>
          hflag flag (by rw [← heq, String.toList_ofList])
      rw [cut?_eq_some_iff.mpr ⟨hpair, hkey⟩]
      simp only [hname]
    | @invalidValue key value flag hpair hkey hflag hswitch =>
      have hname : Flag.ofText? (String.ofList (Text.trim key)) = some flag :=
        Flag.ofText?_eq_some_iff.mpr (by rw [hflag, String.ofList_toList])
      have hnone : readSwitch? (String.ofList (Text.trim value)) = none :=
        readSwitch?_eq_none_iff.mpr (by rwa [String.toList_ofList])
      rw [cut?_eq_some_iff.mpr ⟨hpair, hkey⟩]
      simp only [hname, hnone]
      rw [hflag, String.ofList_toList]

/-- The options that settings make of options, applied from the first on. -/
def settle (o : Options) (settings : List (Flag × Bool)) : Options :=
  settings.foldl (fun o setting => o.set setting.1 setting.2) o

theorem applyAll_cons (o : Options) (pair : String) (pairs : List String) :
    o.applyAll (pair :: pairs) = o.apply pair >>= fun o => o.applyAll pairs :=
  List.foldlM_cons

/-- **Pairs are applied exactly if each of them sets a flag.** -/
theorem applyAll_eq_ok_iff {o o' : Options} {pairs : List String} :
    o.applyAll pairs = .ok o' ↔
      ∃ settings, List.Forall₂ (fun pair setting => Sets pair setting.1 setting.2) pairs settings ∧
        o' = o.settle settings := by
  induction pairs generalizing o with
  | nil =>
    have hnil : o.applyAll [] = .ok o := rfl
    simp [hnil, settle, eq_comm]
  | cons pair pairs ih =>
    rw [applyAll_cons]
    constructor
    · intro h
      cases hread : readPair pair with
      | error e =>
        rw [apply, hread] at h
        cases h
      | ok setting =>
        rw [apply, hread] at h
        obtain ⟨settings, hsettings, ho⟩ := ih.mp h
        exact ⟨setting :: settings, .cons (readPair_eq_ok_iff.mp hread) hsettings, ho⟩
    · rintro ⟨settings, hsettings, rfl⟩
      cases hsettings with
      | cons hsets hrest =>
        rw [apply, readPair_eq_ok_iff.mpr hsets]
        exact ih.mpr ⟨_, hrest, rfl⟩

end Options

end TaskOutline
