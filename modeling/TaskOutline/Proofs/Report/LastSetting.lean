import Mathlib.Data.List.Induction
import TaskOutline.Proofs.Report.Options

/-! # The last setting counts

Pairs are offered to options one after the other.  A pair that sets a flag changes this flag
and no other, and a pair that is refused changes none (`Options.Sets.reply`,
`Options.Refused.reply`).  From these two steps it follows for any row of pairs that a flag
ends as the last pair that names it has it, and as it was where none does
(`Options.leaves_after`).  What the pairs for one flag come to therefore does not depend on
where the pairs for the other flag stand among them (`Options.get_after_filter`).

Applying pairs all at once comes to the same, as long as none is refused; else it gives the
error of the first that is (`Options.applyAll_of_sets`, `Options.applyAll_of_refused`).
-/
namespace TaskOutline.Options

variable {o o' : Options} {pair : String} {pairs : List String} {flag : Flag} {on : Bool}
  {e : OptionError}

/-! ## One pair -/

theorem get_set (o : Options) (flag other : Flag) (on : Bool) :
    (o.set flag on).get other = if other = flag then on else o.get other := by
  cases flag <;> cases other <;> rfl

/-- Options are equal when their flags are. -/
theorem ext_get (h : ∀ flag, o.get flag = o'.get flag) : o = o' := by
  have hsummary : o.summary = o'.summary := h .summary
  have hfold : o.fold = o'.fold := h .fold
  cases o
  cases o'
  congr

theorem Sets.apply (h : Sets pair flag on) (o : Options) : o.apply pair = .ok (o.set flag on) := by
  rw [Options.apply, readPair_eq_ok_iff.mpr h]
  rfl

theorem Refused.apply (h : Refused pair e) (o : Options) : o.apply pair = .error e := by
  rw [Options.apply, readPair_eq_error_iff.mpr h]
  rfl

theorem Sets.reply (h : Sets pair flag on) (o : Options) :
    o.reply pair = ⟨none, o.set flag on⟩ := by
  unfold Options.reply offer
  rw [readPair_eq_ok_iff.mpr h]
  rfl

/-- **A pair that is refused leaves the options as they were.** -/
theorem Refused.reply (h : Refused pair e) (o : Options) : o.reply pair = ⟨some e, o⟩ := by
  unfold Options.reply offer
  rw [readPair_eq_error_iff.mpr h]
  rfl

theorem sets_or_refused (pair : String) :
    (∃ flag on, Sets pair flag on) ∨ ∃ e, Refused pair e := by
  cases h : readPair pair with
  | ok setting => exact .inl ⟨setting.1, setting.2, readPair_eq_ok_iff.mp h⟩
  | error e => exact .inr ⟨e, readPair_eq_error_iff.mp h⟩

theorem error_reply_eq_some_iff : (o.reply pair).error = some e ↔ Refused pair e := by
  constructor
  · intro herror
    rcases sets_or_refused pair with ⟨flag, on, h⟩ | ⟨e', h⟩
    · rw [h.reply] at herror
      cases herror
    · rw [h.reply] at herror
      exact Option.some.inj herror ▸ h
  · intro h
    rw [h.reply]

/-- The pair sets this flag. -/
def Names (flag : Flag) (pair : String) : Prop := ∃ on, Sets pair flag on

instance : DecidablePred (Names flag) := fun pair =>
  decidable_of_iff (∃ on, readPair pair = .ok (flag, on))
    (exists_congr fun _ => readPair_eq_ok_iff)

theorem get_reply_of_sets (h : Sets pair flag on) (o : Options) :
    (o.reply pair).options.get flag = on := by
  rw [h.reply, get_set, if_pos rfl]

theorem get_reply_of_not_names (h : ¬ Names flag pair) (o : Options) :
    (o.reply pair).options.get flag = o.get flag := by
  rcases sets_or_refused pair with ⟨named, on, hsets⟩ | ⟨e, hrefused⟩
  · have hother : flag ≠ named := by
      rintro rfl
      exact h ⟨on, hsets⟩
    rw [hsets.reply, get_set, if_neg hother]
  · rw [hrefused.reply]

/-! ## A row of pairs -/

/-- The options that are there when pairs have been offered one after the other. -/
def after (o : Options) (pairs : List String) : Options :=
  pairs.foldl (fun o pair => (o.reply pair).options) o

theorem after_concat (o : Options) (pairs : List String) (pair : String) :
    o.after (pairs ++ [pair]) = ((o.after pairs).reply pair).options := by
  rw [after, List.foldl_concat]
  rfl

/-- What pairs leave a flag at: the setting that the last pair that names it gives, or where
none names it the one that it has. -/
def Leaves (o : Options) (pairs : List String) (flag : Flag) (on : Bool) : Prop :=
  (∃ before pair rest, pairs = before ++ pair :: rest ∧ Sets pair flag on ∧
    ∀ later ∈ rest, ¬ Names flag later) ∨
  (∀ pair ∈ pairs, ¬ Names flag pair) ∧ on = o.get flag

/-- A pair that does not name a flag may follow. -/
theorem Leaves.concat (h : o.Leaves pairs flag on) (hpair : ¬ Names flag pair) :
    o.Leaves (pairs ++ [pair]) flag on := by
  rcases h with ⟨before, last, rest, rfl, hsets, hrest⟩ | ⟨hnone, hon⟩
  · refine .inl ⟨before, last, rest ++ [pair], by simp, hsets, ?_⟩
    exact List.forall_mem_append.mpr ⟨hrest, List.forall_mem_singleton.mpr hpair⟩
  · exact .inr ⟨List.forall_mem_append.mpr ⟨hnone, List.forall_mem_singleton.mpr hpair⟩, hon⟩

/-- **The last pair that names a flag settles it.** -/
theorem leaves_after (o : Options) (pairs : List String) (flag : Flag) :
    o.Leaves pairs flag ((o.after pairs).get flag) := by
  -- from the right: the last pair decides, or leaves it to those before
  induction pairs using List.reverseRecOn with
  | nil => exact .inr ⟨by simp, rfl⟩
  | append_singleton pairs pair ih =>
    rw [after_concat]
    by_cases hnames : Names flag pair
    · obtain ⟨on, hsets⟩ := hnames
      rw [get_reply_of_sets hsets]
      exact .inl ⟨pairs, pair, [], rfl, hsets, by simp⟩
    · rw [get_reply_of_not_names hnames]
      exact ih.concat hnames

/-- The pairs that do not name a flag may be left out. -/
theorem get_after_filter (o : Options) (pairs : List String) (flag : Flag) :
    (o.after (pairs.filter (Names flag ·))).get flag = (o.after pairs).get flag := by
  induction pairs using List.reverseRecOn with
  | nil => rfl
  | append_singleton pairs pair ih =>
    rw [List.filter_append, after_concat]
    by_cases hnames : Names flag pair
    · -- both rows end with the pair, and what came before does not count
      rw [List.filter_cons_of_pos (by simpa using hnames), List.filter_nil, after_concat]
      obtain ⟨on, hsets⟩ := hnames
      rw [get_reply_of_sets hsets, get_reply_of_sets hsets]
    · rw [List.filter_cons_of_neg (by simpa using hnames), List.filter_nil, List.append_nil, ih,
        get_reply_of_not_names hnames]

theorem after_eq_of_filter {others : List String}
    (h : ∀ flag, others.filter (Names flag ·) = pairs.filter (Names flag ·)) :
    o.after others = o.after pairs := by
  refine ext_get fun flag => ?_
  rw [← get_after_filter, h flag, get_after_filter]

/-- A call that is refused leaves the options of the call before. -/
theorem isChain_replies (last : Reply) (pairs : List String) :
    List.IsChain (fun last next => next.error ≠ none → next.options = last.options)
      (last :: last.options.replies pairs) := by
  induction pairs generalizing last with
  | nil => exact .singleton last
  | cons pair pairs ih =>
    refine .cons_cons (fun herror => ?_) (ih _)
    obtain ⟨e, he⟩ := Option.ne_none_iff_exists'.mp herror
    rw [(error_reply_eq_some_iff.mp he).reply]

/-- The pairs that are refused are passed over. -/
example : ((⟨true, false⟩ : Options).replies ["fold=1", "fold=maybe", "summary"]).map Reply.options =
    [⟨true, true⟩, ⟨true, true⟩, ⟨true, true⟩] := by decide

theorem errors_replies (o : Options) (pairs : List String) :
    List.Forall₂ (fun pair r => ∀ e, r.error = some e ↔ Refused pair e) pairs (o.replies pairs) := by
  induction pairs generalizing o with
  | nil => exact .nil
  | cons pair pairs ih => exact .cons (fun _ => error_reply_eq_some_iff) (ih _)

/-! ## All or the first error -/

/-- Where no pair is refused, all are applied. -/
theorem applyAll_of_sets (h : ∀ pair ∈ pairs, ∃ flag on, Sets pair flag on) (o : Options) :
    o.applyAll pairs = .ok (o.after pairs) := by
  induction pairs generalizing o with
  | nil => rfl
  | cons pair pairs ih =>
    obtain ⟨⟨flag, on, hsets⟩, hrest⟩ := List.forall_mem_cons.mp h
    have hafter : o.after (pair :: pairs) = (o.set flag on).after pairs := by
      rw [after, List.foldl_cons, hsets.reply]
      rfl
    rw [applyAll_cons, hsets.apply, hafter]
    exact ih hrest _

/-- The first pair that is refused gives its error. -/
theorem applyAll_of_refused {before rest : List String}
    (hbefore : ∀ p ∈ before, ∃ flag on, Sets p flag on) (h : Refused pair e) (o : Options) :
    o.applyAll (before ++ pair :: rest) = .error e := by
  have hsplit : o.applyAll (before ++ pair :: rest) =
      o.applyAll before >>= fun o => o.applyAll (pair :: rest) := List.foldlM_append
  rw [hsplit, applyAll_of_sets hbefore]
  show (o.after before).applyAll (pair :: rest) = .error e
  rw [applyAll_cons, h.apply]
  rfl

/-- Of pairs either all set a flag, or there is a first that is refused. -/
theorem sets_or_first_refused (pairs : List String) :
    (∀ pair ∈ pairs, ∃ flag on, Sets pair flag on) ∨
      ∃ before pair rest e, pairs = before ++ pair :: rest ∧
        (∀ p ∈ before, ∃ flag on, Sets p flag on) ∧ Refused pair e := by
  induction pairs with
  | nil => exact .inl (by simp)
  | cons pair pairs ih =>
    rcases sets_or_refused pair with hsets | ⟨e, hrefused⟩
    · rcases ih with hall | ⟨before, bad, rest, e, rfl, hbefore, hbad⟩
      · exact .inl (List.forall_mem_cons.mpr ⟨hsets, hall⟩)
      · exact .inr ⟨pair :: before, bad, rest, e, rfl,
          List.forall_mem_cons.mpr ⟨hsets, hbefore⟩, hbad⟩
    · exact .inr ⟨[], pair, pairs, e, rfl, by simp, hrefused⟩

theorem sets_of_applyAll (h : o.applyAll pairs = .ok o') :
    ∀ pair ∈ pairs, ∃ flag on, Sets pair flag on := by
  rcases sets_or_first_refused pairs with hall | ⟨before, pair, rest, e, rfl, hbefore, hbad⟩
  · exact hall
  · rw [applyAll_of_refused hbefore hbad] at h
    cases h

theorem eq_after_of_applyAll (h : o.applyAll pairs = .ok o') : o' = o.after pairs := by
  rw [applyAll_of_sets (sets_of_applyAll h)] at h
  exact (Except.ok.inj h).symm

theorem applyAll_eq_error_iff :
    o.applyAll pairs = .error e ↔ ∃ before pair rest, pairs = before ++ pair :: rest ∧
      (∀ p ∈ before, ∃ flag on, Sets p flag on) ∧ Refused pair e := by
  constructor
  · intro h
    rcases sets_or_first_refused pairs with hall | ⟨before, pair, rest, e', rfl, hbefore, hbad⟩
    · rw [applyAll_of_sets hall] at h
      cases h
    · rw [applyAll_of_refused hbefore hbad] at h
      obtain rfl := Except.error.inj h
      exact ⟨before, pair, rest, rfl, hbefore, hbad⟩
  · rintro ⟨before, pair, rest, rfl, hbefore, hbad⟩
    exact applyAll_of_refused hbefore hbad o

/-- **The last setting counts.**  Pairs can be applied exactly if each of them sets a flag.
Then each flag is as the last pair that names it has it, or as it was, and any arrangement in
which the pairs for each flag come in the same order gives the same.  Otherwise the error is
that of the first pair that is refused.  Where pairs are offered one after the other, those
that are refused give their errors and leave the options as they found them, so that here
too each flag ends as the last pair that names it has it. -/
theorem last_setting_counts (o : Options) (pairs : List String) :
    ((∃ o', o.applyAll pairs = .ok o') ↔ ∀ pair ∈ pairs, ∃ flag on, Sets pair flag on) ∧
    (∀ o', o.applyAll pairs = .ok o' →
      (∀ flag, o.Leaves pairs flag (o'.get flag)) ∧
      ∀ others : List String, others.Perm pairs →
        (∀ flag, others.filter (Names flag ·) = pairs.filter (Names flag ·)) →
        o.applyAll others = .ok o') ∧
    (∀ e, o.applyAll pairs = .error e ↔ ∃ before pair rest, pairs = before ++ pair :: rest ∧
      (∀ p ∈ before, ∃ flag on, Sets p flag on) ∧ Refused pair e) ∧
    List.Forall₂ (fun pair r => ∀ e, r.error = some e ↔ Refused pair e) pairs (o.replies pairs) ∧
    List.IsChain (fun last next => next.error ≠ none → next.options = last.options)
      (⟨none, o⟩ :: o.replies pairs) ∧
    ∀ flag, o.Leaves pairs flag ((o.after pairs).get flag) := by
  refine ⟨⟨fun ⟨o', h⟩ => sets_of_applyAll h, fun h => ⟨_, applyAll_of_sets h o⟩⟩, ?_,
    fun e => applyAll_eq_error_iff, errors_replies o pairs, isChain_replies ⟨none, o⟩ pairs,
    leaves_after o pairs⟩
  intro o' h
  obtain rfl := eq_after_of_applyAll h
  refine ⟨leaves_after o pairs, fun others hperm hsame => ?_⟩
  have hothers : ∀ pair ∈ others, ∃ flag on, Sets pair flag on :=
    fun pair hpair => sets_of_applyAll h pair (hperm.mem_iff.mp hpair)
  rw [applyAll_of_sets hothers, after_eq_of_filter hsame]

/-- A pair for the one flag may move past a pair for the other. -/
theorem last_setting_counts_moved :
    (⟨true, false⟩ : Options).applyAll ["summary=0", " fold = YES ", "summary=On"] =
        .ok ⟨true, true⟩ ∧
      (⟨true, false⟩ : Options).applyAll [" fold = YES ", "summary=0", "summary=On"] =
        .ok ⟨true, true⟩ := by
  have happlied : (⟨true, false⟩ : Options).applyAll ["summary=0", " fold = YES ", "summary=On"] =
      .ok ⟨true, true⟩ := rfl
  have hsame : ∀ flag, [" fold = YES ", "summary=0", "summary=On"].filter (Names flag ·) =
      ["summary=0", " fold = YES ", "summary=On"].filter (Names flag ·) := by
    intro flag
    cases flag <;> decide
  have hpairs := last_setting_counts ⟨true, false⟩ ["summary=0", " fold = YES ", "summary=On"]
  exact ⟨happlied, (hpairs.2.1 _ happlied).2 _ (.swap _ _ _) hsame⟩

end TaskOutline.Options
