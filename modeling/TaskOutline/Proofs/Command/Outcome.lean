import TaskOutline.Command.Run
import TaskOutline.Proofs.Load.OneLine
import TaskOutline.Proofs.Report.Options
import TaskOutline.Settings.UserDirs

/-! # What a run leaves behind

A run comes to a report if its words call for an exporter, its configuration can be loaded,
each of its pairs sets a flag and its source is text that can be read (`Invocation.Ready`).
It then leaves behind what the report does (`Invocation.run_of_ready`), and otherwise a
message and nothing else (`Invocation.run_of_not_ready`).

Nothing is asked of the readers that understand the command line and the text of the
configuration, nor of where the user's settings are: what is said holds whatever these are.
-/
namespace TaskOutline

/-! ## What a run needs -/

/-- Words call for an exporter and leave pairs: for the one that the first word names, in any
ASCII case, if that word has no `=` in it, and else for the one that is preset. -/
inductive Calls (preset : Option Exporter) : List String → Exporter → List String → Prop where
  | named {first : String} {rest : List String} {e : Exporter} :
      '=' ∉ first.toList → Text.fold first.toList = e.text.toList →
      Calls preset (first :: rest) e rest
  | preset {words : List String} {e : Exporter} :
      (∀ first ∈ words.head?, '=' ∈ first.toList) → preset = some e → Calls preset words e words

namespace FileTree

variable (t : FileTree)

/-- A path leads to a file with a text in UTF-8. -/
def Holds (path : Path) (text : String) : Prop :=
  ∃ names bytes, t.resolve path = .ok names ∧ t.find? names = some (.file bytes) ∧
    String.fromUTF8? bytes = some text

/-- The source that an input stands for: the text on standard input, or that of a file, in
UTF-8. -/
inductive Supplies (input : ByteArray) : String → Source → Prop where
  | stdin {text : String} : String.fromUTF8? input = some text →
      Supplies input "-" { text := text }
  | file {path text : String} : path ≠ "-" → t.Holds ⟨path⟩ text →
      Supplies input path { text := text, path := some ⟨path⟩ }

/-- The configuration that is loaded: that of the file which is named, or else that of the
file in the directory of the user's settings.  The first has to be there; where there is no
such directory or nothing in the place of the file, nothing is preset. -/
inductive Configures (read : String → Except String Config) (configDir? : Option Path) :
    Option Path → Config → Prop where
  | named {path : Path} {text : String} {config : Config} : t.Holds path text →
      read text = .ok config → Configures read configDir? (some path) config
  | user {dir : Path} {text : String} {config : Config} : configDir? = some dir →
      t.Holds (dir.join ⟨"config.toml"⟩) text → read text = .ok config →
      Configures read configDir? none config
  | absent {dir : Path} : configDir? = some dir → t.hasPath (dir.join ⟨"config.toml"⟩) = false →
      Configures read configDir? none ⟨none, ⟨true, false⟩⟩
  | homeless : configDir? = none → Configures read configDir? none ⟨none, ⟨true, false⟩⟩

end FileTree

/-- All that an invocation needs to come to a report. -/
structure Invocation.Ready (i : Invocation) (r : Readers) (t : FileTree)
    (configDir? : Option Path) (input : ByteArray) (config : Config) (e : Exporter)
    (pairs : List String) (options : Options) (source : Source) : Prop where
  loads : t.Configures r.config configDir? (i.config.map Path.mk) config
  calls : Calls config.defaultExporter i.words e pairs
  sets : ∃ settings,
    List.Forall₂ (fun pair setting => Options.Sets pair setting.1 setting.2) pairs settings ∧
      options = config.options.settle settings
  supplies : t.Supplies input i.input source

theorem calls_iff {preset : Option Exporter} {words pairs : List String} {e : Exporter} :
    Calls preset words e pairs ↔
      ∃ named, splitWords words = .ok (named, pairs) ∧ named.or preset = some e := by
  constructor
  · rintro (⟨hfirst, hname⟩ | ⟨hwords, rfl⟩)
    · rename_i first
      have hpair : first.toList.contains '=' = false := by simpa using hfirst
      refine ⟨some e, ?_, rfl⟩
      simp only [splitWords, hpair, Exporter.ofTextFolded?_eq_some_iff.mpr hname]
      rfl
    · refine ⟨none, ?_, rfl⟩
      cases words with
      | nil => rfl
      | cons first rest =>
        have hpair : first.toList.contains '=' = true := by simpa using hwords first rfl
        rw [splitWords, if_pos hpair]
  · rintro ⟨named, hsplit, hor⟩
    cases words with
    | nil =>
      cases hsplit
      exact .preset (fun _ hfirst => by cases hfirst) (by simpa using hor)
    | cons first rest =>
      by_cases hpair : '=' ∈ first.toList
      · rw [splitWords, if_pos (by simpa using hpair)] at hsplit
        cases hsplit
        exact .preset (fun first' hfirst' => Option.some.inj hfirst' ▸ hpair) (by simpa using hor)
      · rw [splitWords, if_neg (by simpa using hpair)] at hsplit
        cases hname : Exporter.ofTextFolded? first with
        | none =>
          rw [hname] at hsplit
          cases hsplit
        | some e' =>
          rw [hname] at hsplit
          cases hsplit
          obtain rfl : e' = e := Option.some.inj hor
          exact .named hpair (Exporter.ofTextFolded?_eq_some_iff.mp hname)

namespace FileTree

variable {t : FileTree} {environment : List (String × String)} {configDir? : Option Path}
  {input : ByteArray}

theorem decode_eq_ok_iff {bytes : ByteArray} {text : String} :
    decode bytes = .ok text ↔ String.fromUTF8? bytes = some text := by
  unfold decode
  cases String.fromUTF8? bytes <;> simp

theorem readText_eq_ok_iff {path : Path} {text : String} :
    t.readText path = .ok text ↔ t.Holds path text := by
  unfold readText Holds
  cases t.resolve path with
  | error fault => simp
  | ok names =>
    cases hnode : t.find? names with
    | none => simp [hnode]
    | some node =>
      cases node with
      | file bytes => simp [hnode, decode_eq_ok_iff]
      | directory => simp [hnode]
      | link target => simp [hnode]

theorem read_eq_ok_iff {path : Path} {text : String} :
    t.workspace.read path = .ok text ↔ t.Holds path text :=
  Field.mapError_eq_ok_iff.trans readText_eq_ok_iff

theorem hasPath_of_holds {path : Path} {text : String} (h : t.Holds path text) :
    t.hasPath path = true := by
  obtain ⟨names, -, hnames, -⟩ := h
  rw [hasPath, hnames]
  rfl

theorem supplies_iff {path : String} {source : Source} :
    t.Supplies input path source ↔
      (t.host environment configDir? input).readSource path = .ok source := by
  have hinput : ∀ {text}, (t.host environment configDir? input).input = .ok text ↔
      String.fromUTF8? input = some text :=
    Field.mapError_eq_ok_iff.trans decode_eq_ok_iff
  unfold Host.readSource
  constructor
  · intro h
    cases h with
    | stdin htext => rw [if_pos rfl, hinput.mpr htext]
    | file hpath htext =>
      rw [if_neg hpath]
      rw [show (t.host environment configDir? input).workspace.read ⟨path⟩ = .ok _ from
        read_eq_ok_iff.mpr htext]
  · intro h
    split at h
    · rename_i hdash
      subst hdash
      split at h
      · rename_i text htext
        cases h
        exact .stdin (hinput.mp htext)
      · cases h
    · rename_i hpath
      split at h
      · rename_i text htext
        cases h
        exact .file hpath (read_eq_ok_iff.mp htext)
      · cases h

variable {read : String → Except String Config} {config : Config}

theorem readConfig_eq_ok_iff {path : Path} :
    (t.host environment configDir? input).readConfig read path = .ok config ↔
      ∃ text, t.Holds path text ∧ read text = .ok config := by
  have hworkspace : (t.host environment configDir? input).workspace = t.workspace := rfl
  unfold Host.readConfig
  rw [hworkspace]
  simp only [← read_eq_ok_iff]
  cases t.workspace.read path with
  | error reason => simp
  | ok text => simp [Field.mapError_eq_ok_iff]

/-- A configuration is loaded as it is told here. -/
theorem configures_iff {named : Option Path} :
    t.Configures read configDir? named config ↔
      (t.host environment configDir? input).loadConfig read named = .ok config := by
  have huser : ∀ dir, (t.host environment (some dir) input).loadConfig read none =
      if t.hasPath (dir.join ⟨"config.toml"⟩) then
        (t.host environment (some dir) input).readConfig read (dir.join ⟨"config.toml"⟩)
      else .ok {} := fun _ => rfl
  constructor
  · intro h
    cases h with
    | named htext hread => exact readConfig_eq_ok_iff.mpr ⟨_, htext, hread⟩
    | user hdir htext hread =>
      subst hdir
      rw [huser, if_pos (hasPath_of_holds htext)]
      exact readConfig_eq_ok_iff.mpr ⟨_, htext, hread⟩
    | absent hdir hnone =>
      subst hdir
      rw [huser, if_neg (by simp [hnone])]
    | homeless hdir =>
      subst hdir
      rfl
  · intro h
    cases named with
    | some path =>
      obtain ⟨text, htext, hread⟩ := readConfig_eq_ok_iff.mp h
      exact .named htext hread
    | none =>
      cases hdir : configDir? with
      | none =>
        subst hdir
        cases h
        exact .homeless rfl
      | some dir =>
        subst hdir
        rw [huser] at h
        split at h
        · obtain ⟨text, htext, hread⟩ := readConfig_eq_ok_iff.mp h
          exact .user rfl htext hread
        · rename_i hnone
          cases h
          exact .absent rfl (by simpa using hnone)

theorem follow_here {links : Nat} {names : List String} {rest : List Component}
    (hdir : t.isDirectory names = true) :
    t.follow links names (.here :: rest) = t.follow links names rest := by
  rw [follow, hdir]
  rfl

/-- A name that stands for no link leads one step further. -/
theorem follow_name {links : Nat} {names : List String} {name : String} {rest : List Component}
    (node : FileNode) (hdir : t.isDirectory names = true)
    (hname : name.utf8ByteSize ≤ maxNameBytes) (hnode : t.find? (names ++ [name]) = some node)
    (hplain : ∀ target, node ≠ .link target) :
    t.follow links names (.name name :: rest) = t.follow links (names ++ [name]) rest := by
  rw [follow, hdir]
  simp only [Bool.not_true, Bool.false_eq_true, if_false, if_neg (Nat.not_lt.mpr hname), hnode]

/-- A path that can be followed is opened, if it is not too long. -/
theorem resolve_of_follow {path : Path} {names : List String} (hne : path.text.isEmpty = false)
    (hnul : path.chars.contains '\x00' = false) (hsize : path.text.utf8ByteSize < maxPathBytes)
    (h : t.follow maxLinks (if path.isAbsolute then [] else t.workingDir) (steps path) =
      .ok names) :
    t.resolve path = .ok names := by
  have htrace : t.trace path = .ok names := by
    rw [trace, hne, hnul]
    exact h
  rw [resolve, htrace]
  exact if_neg (Nat.not_le.mpr hsize)

/-- What is said of a file that cannot be read is on one line. -/
theorem oneLine_reason {path : Path} {reason : String}
    (h : t.workspace.read path = .error reason) : OneLine reason := by
  obtain ⟨fault, -, rfl⟩ := Except.mapError_eq_error h
  cases fault <;> exact .of_chars (by decide)

end FileTree

/-! ## Coming to a report -/

namespace Source

/-- A source without a directory of its own looks included files up in a directory that is
named on one line, if its file and the working directory are. -/
theorem oneLine_includeDir {source : Source} {cwd : Path} (hbase : source.baseDir = none)
    (hpath : ∀ path ∈ source.path, OneLine path.text) (hcwd : OneLine cwd.text) :
    OneLine (source.includeDir cwd).text := by
  unfold includeDir
  rw [hbase]
  cases hparent : source.path.bind Path.parent? with
  | none => exact hcwd
  | some dir =>
    obtain ⟨path, hsource, hdir⟩ := Option.bind_eq_some_iff.mp hparent
    show OneLine (if dir.text.isEmpty then cwd else dir).text
    split
    · exact hcwd
    · exact Path.oneLine_parent? (hpath path hsource) hdir

theorem onOneLine_of_supplies {t : FileTree} {input : ByteArray} {path : String} {source : Source}
    (h : t.Supplies input path source) (hpath : OneLine path)
    (hcwd : OneLine t.workspace.workingDir.text) : source.OnOneLine t.workspace := by
  cases h with
  | stdin htext =>
    exact ⟨.of_chars (by decide), oneLine_includeDir rfl (fun _ hnone => by cases hnone) hcwd,
      FileTree.oneLine_reason⟩
  | file _ _ =>
    refine ⟨hpath, oneLine_includeDir rfl (fun path' hpath' => ?_) hcwd, FileTree.oneLine_reason⟩
    obtain rfl := Option.some.inj hpath'
    exact hpath

end Source

namespace Invocation

variable {i : Invocation} {r : Readers} {t : FileTree} {environment : List (String × String)}
  {configDir? : Option Path} {input : ByteArray} {config : Config} {e : Exporter}
  {preset options : Options} {pairs : List String} {source : Source}

theorem settle_eq_ok_iff {h : Host} :
    i.settle r h = .ok (e, preset, pairs) ↔
      ∃ config, h.loadConfig r.config (i.config.map Path.mk) = .ok config ∧
        Calls config.defaultExporter i.words e pairs ∧ preset = config.options := by
  unfold settle
  constructor
  · intro hsettle
    obtain ⟨⟨named, pairs'⟩, hsplit, hsettle⟩ := Except.bind_eq_ok hsettle
    obtain ⟨config, hconfig, hsettle⟩ := Except.bind_eq_ok hsettle
    refine ⟨config, Field.mapError_eq_ok_iff.mp hconfig, ?_⟩
    cases hor : named.or config.defaultExporter with
    | none =>
      rw [hor] at hsettle
      cases hsettle
    | some e' =>
      rw [hor] at hsettle
      cases hsettle
      exact ⟨calls_iff.mpr ⟨named, hsplit, hor⟩, rfl⟩
  · rintro ⟨config, hconfig, hcalls, rfl⟩
    obtain ⟨named, hsplit, hor⟩ := calls_iff.mp hcalls
    simp only [hsplit, hconfig, Except.mapError, bind, Except.bind]
    rw [hor]
    rfl

theorem report_eq_ok_iff {h : Host} {r : Report} :
    i.report h e preset pairs = .ok r ↔
      ∃ options source, preset.applyAll pairs = .ok options ∧ h.readSource i.input = .ok source ∧
        r = source.render h.workspace e options := by
  unfold report
  constructor
  · intro hreport
    obtain ⟨options, hoptions, hreport⟩ := Except.bind_eq_ok hreport
    obtain ⟨source, hsource, hreport⟩ := Except.bind_eq_ok hreport
    cases hreport
    exact ⟨options, source, Field.mapError_eq_ok_iff.mp hoptions, hsource, rfl⟩
  · rintro ⟨options, source, hoptions, hsource, rfl⟩
    rw [hoptions, hsource]
    rfl

/-- The lines that come before those of the report. -/
def ignoredLines (f : DiagnosticFormat) (e : Exporter) (pairs : List String) : List String :=
  if !e.takesOptions && !pairs.isEmpty then
    [f.warningLine ("The " ++ e.text ++ " exporter ignores options")]
  else []

/-- **A run that comes to a report leaves behind what the report does.** -/
theorem run_of_ready (h : i.Ready r t configDir? input config e pairs options source) :
    i.run r (t.host environment configDir? input) =
      (source.render t.workspace e options).outcome i.format (ignoredLines i.format e pairs) := by
  have hsettle : i.settle r (t.host environment configDir? input) =
      .ok (e, config.options, pairs) :=
    settle_eq_ok_iff.mpr ⟨config, FileTree.configures_iff.mp h.loads, h.calls, rfl⟩
  have hreport : i.report (t.host environment configDir? input) e config.options pairs =
      .ok (source.render t.workspace e options) :=
    report_eq_ok_iff.mpr ⟨options, source, Options.applyAll_eq_ok_iff.mpr h.sets,
      FileTree.supplies_iff.mp h.supplies, rfl⟩
  unfold run
  simp only [hsettle, hreport]
  rfl

/-- A run that comes to no report has failed and says nothing on the standard output. -/
theorem run_of_not_ready
    (h : ¬ ∃ config e pairs options source,
      i.Ready r t configDir? input config e pairs options source) :
    (i.run r (t.host environment configDir? input)).exitCode = 1 ∧
      (i.run r (t.host environment configDir? input)).output = "" := by
  unfold run
  split
  · exact ⟨rfl, rfl⟩
  · rename_i e preset pairs hsettle
    dsimp only
    split
    · exact ⟨rfl, rfl⟩
    · rename_i r hreport
      obtain ⟨config, hloads, hcalls, rfl⟩ := settle_eq_ok_iff.mp hsettle
      obtain ⟨options, source, hoptions, hsource, -⟩ := report_eq_ok_iff.mp hreport
      exact absurd ⟨config, e, pairs, options, source, FileTree.configures_iff.mpr hloads, hcalls,
        Options.applyAll_eq_ok_iff.mp hoptions, FileTree.supplies_iff.mpr hsource⟩ h

end Invocation

/-! ## What is left behind -/

namespace Report

variable (r : Report) (f : DiagnosticFormat) (before : List String)

theorem exitCode_outcome : (r.outcome f before).exitCode = if r.isSuccess then 0 else 1 := by
  unfold outcome
  dsimp only
  split <;> rfl

theorem output_outcome : (r.outcome f before).output = if r.isSuccess then r.text else "" := by
  unfold outcome
  dsimp only
  split <;> rfl

theorem errors_outcome :
    (r.outcome f before).errors = unlines (before ++ r.diagnostics.map f.diagnosticLine ++
      if r.isSuccess then [] else f.failureLines (errorCount r.diagnostics)) := by
  unfold outcome
  dsimp only
  split
  · rw [List.append_nil]
  · rfl

end Report

theorem Report.isSuccess_iff {r : Report} :
    r.isSuccess = true ↔ ∀ d ∈ r.diagnostics, d.severity ≠ .error := by
  rw [Report.isSuccess, Bool.not_eq_true', hasErrors_eq_false_iff]
  simp [Diagnostic.isError]

namespace Source

variable {source : Source} {w : Workspace} {e : Exporter} {o : Options}

theorem diagnostics_render (source : Source) (w : Workspace) (e : Exporter) (o : Options) :
    (source.render w e o).diagnostics = (source.load w []).2 := by
  cases h : source.load w [] with
  | mk doc log =>
    cases doc with
    | none => rw [render_of_load_none h]
    | some doc => rw [render_of_load h]

theorem text_ne_empty_of_success (h : (source.render w e o).isSuccess = true) :
    (source.render w e o).text ≠ "" := by
  have hsome := isSome_load source w []
  rw [← diagnostics_render source w e o] at hsome
  obtain ⟨doc, hdoc⟩ := Option.isSome_iff_exists.mp (hsome.trans h)
  exact text_ne_empty_of_load (Prod.ext hdoc rfl) e o

end Source

namespace Invocation

variable {i : Invocation} {r : Readers} {t : FileTree} {environment : List (String × String)}
  {configDir? : Option Path} {input : ByteArray} {config : Config} {e : Exporter}
  {options : Options} {pairs : List String} {source : Source}

/-- The lines that a run which comes to a report writes to the standard error, in the format
of text: whether options are passed over, what the report has to say, and how many errors
there were, if there were any. -/
def errorLines (e : Exporter) (pairs : List String) (r : Report) : List String :=
  (if e = .plain ∧ pairs ≠ [] then ["warning: The plain exporter ignores options"] else []) ++
    r.diagnostics.map Diagnostic.text ++
    if r.isSuccess then []
    else ["Failed with " ++ natText (errorCount r.diagnostics) ++ " error" ++
      if errorCount r.diagnostics = 1 then "" else "s"]

theorem errors_eq_errorLines (e : Exporter) (pairs : List String) (r : Report) :
    (r.outcome .text (ignoredLines .text e pairs)).errors = unlines (errorLines e pairs r) := by
  have hignored : ignoredLines .text e pairs =
      if e = .plain ∧ pairs ≠ [] then ["warning: The plain exporter ignores options"] else [] := by
    cases e <;> cases pairs <;> rfl
  rw [Report.errors_outcome, hignored]
  rfl

/-- **The lines on the standard error are lines**, if the reports are. -/
theorem oneLine_of_mem_errorLines {e : Exporter} {pairs : List String} {r : Report}
    (h : ∀ d ∈ r.diagnostics, OneLine d.text) : ∀ line ∈ errorLines e pairs r, OneLine line := by
  have hfailed : OneLine "Failed with " := .of_chars (by decide)
  have herror : OneLine " error" := .of_chars (by decide)
  intro line hline
  rcases List.mem_append.mp hline with hline | hline
  · rcases List.mem_append.mp hline with hline | hline
    · split at hline
      · obtain rfl := List.mem_singleton.mp hline
        exact .of_chars (by decide)
      · cases hline
    · obtain ⟨d, hd, rfl⟩ := List.mem_map.mp hline
      exact h d hd
  · split at hline
    · cases hline
    · obtain rfl := List.mem_singleton.mp hline
      simp only [oneLine_append]
      refine ⟨⟨⟨hfailed, oneLine_natText _⟩, herror⟩, ?_⟩
      split <;> exact .of_chars (by decide)

/-! ## The exit code, the output and the lines of a run -/

/-- A run succeeds exactly if it comes to a report without an error. -/
theorem exitCode_run_eq_zero_iff :
    (i.run r (t.host environment configDir? input)).exitCode = 0 ↔
      ∃ config e pairs options source,
        i.Ready r t configDir? input config e pairs options source ∧
          (source.render t.workspace e options).isSuccess = true := by
  constructor
  · intro hzero
    by_cases hready : ∃ config e pairs options source,
        i.Ready r t configDir? input config e pairs options source
    · obtain ⟨config, e, pairs, options, source, h⟩ := hready
      rw [run_of_ready h, Report.exitCode_outcome] at hzero
      exact ⟨config, e, pairs, options, source, h, by simpa using hzero⟩
    · rw [(run_of_not_ready hready).1] at hzero
      cases hzero
  · rintro ⟨config, e, pairs, options, source, h, hsuccess⟩
    rw [run_of_ready h, Report.exitCode_outcome, if_pos hsuccess]

theorem exitCode_run :
    (i.run r (t.host environment configDir? input)).exitCode = 0 ∨
      (i.run r (t.host environment configDir? input)).exitCode = 1 := by
  by_cases hready : ∃ config e pairs options source,
      i.Ready r t configDir? input config e pairs options source
  · obtain ⟨config, e, pairs, options, source, h⟩ := hready
    rw [run_of_ready h, Report.exitCode_outcome]
    split
    · exact .inl rfl
    · exact .inr rfl
  · exact .inr (run_of_not_ready hready).1

/-- A run that succeeds writes the text of its report to the standard output. -/
theorem output_run_of_ready (h : i.Ready r t configDir? input config e pairs options source)
    (hzero : (i.run r (t.host environment configDir? input)).exitCode = 0) :
    (source.render t.workspace e options).isSuccess = true ∧
      (i.run r (t.host environment configDir? input)).output =
        (source.render t.workspace e options).text := by
  rw [run_of_ready h, Report.exitCode_outcome] at hzero
  have hsuccess : (source.render t.workspace e options).isSuccess = true := by simpa using hzero
  rw [run_of_ready h, Report.output_outcome, if_pos hsuccess]
  exact ⟨hsuccess, rfl⟩

/-- There is something on the standard output exactly if the run has succeeded. -/
theorem output_run_ne_empty_iff :
    (i.run r (t.host environment configDir? input)).output ≠ "" ↔
      (i.run r (t.host environment configDir? input)).exitCode = 0 := by
  constructor
  · intro houtput
    by_cases hready : ∃ config e pairs options source,
        i.Ready r t configDir? input config e pairs options source
    · obtain ⟨config, e, pairs, options, source, h⟩ := hready
      rw [run_of_ready h, Report.output_outcome] at houtput
      rw [run_of_ready h, Report.exitCode_outcome]
      split at houtput
      · rename_i hsuccess
        rw [if_pos hsuccess]
      · exact absurd rfl houtput
    · exact absurd (run_of_not_ready hready).2 houtput
  · intro hzero
    obtain ⟨config, e, pairs, options, source, h, -⟩ := exitCode_run_eq_zero_iff.mp hzero
    obtain ⟨hsuccess, houtput⟩ := output_run_of_ready h hzero
    rw [houtput]
    exact Source.text_ne_empty_of_success hsuccess

theorem errors_run_of_ready (h : i.Ready r t configDir? input config e pairs options source)
    (hformat : i.format = .text) :
    (i.run r (t.host environment configDir? input)).errors =
      unlines (errorLines e pairs (source.render t.workspace e options)) := by
  rw [run_of_ready h, hformat]
  exact errors_eq_errorLines e pairs _

/-- **The exit code, the report and the diagnostics of a run agree.**  A command line that is
understood ends with 0 or 1, and with 0 exactly if there is something on the standard output.
This is so exactly if the run comes to a report and the report has no error, and then the
output is the text of the report and nothing else.  A run that comes to a report writes in the
format of text the lines `errorLines` to the standard error, each on one line.  What a log
would add to them is no part of the outcome. -/
theorem run_agrees (r : Readers) (t : FileTree) (environment : List (String × String))
    (configDir? : Option Path) (input : ByteArray) (arguments : List String) (i : Invocation)
    (hparse : r.arguments (t.host environment configDir? input).lookupEnv arguments = .ok i)
    (hinput : OneLine i.input) (hcwd : OneLine t.workspace.workingDir.text) :
    let outcome := runCommand r (t.host environment configDir? input) arguments
    (outcome.output ≠ "" ↔ outcome.exitCode = 0) ∧
    (outcome.exitCode = 0 ∨ outcome.exitCode = 1) ∧
    (outcome.exitCode = 0 ↔ ∃ config e pairs options source,
      i.Ready r t configDir? input config e pairs options source ∧
        ∀ d ∈ (source.render t.workspace e options).diagnostics, d.severity ≠ .error) ∧
    ∀ config e pairs options source, i.Ready r t configDir? input config e pairs options source →
      let report := source.render t.workspace e options
      (outcome.exitCode = 0 → outcome.output = report.text) ∧
      (i.format = .text → outcome.errors = unlines (errorLines e pairs report) ∧
        ∀ line ∈ errorLines e pairs report, OneLine line) := by
  intro outcome
  have hrun : outcome = i.run r (t.host environment configDir? input) := by
    show runCommand _ _ _ = _
    unfold runCommand
    rw [hparse]
  rw [hrun]
  refine ⟨output_run_ne_empty_iff, exitCode_run, ?_, ?_⟩
  · rw [exitCode_run_eq_zero_iff]
    simp only [Report.isSuccess_iff]
  · intro config e pairs options source h
    refine ⟨fun hzero => (output_run_of_ready h hzero).2, fun hformat =>
      ⟨errors_run_of_ready h hformat, oneLine_of_mem_errorLines fun d hd => ?_⟩⟩
    rw [Source.diagnostics_render] at hd
    exact (Source.onOneLine_of_supplies h.supplies hinput hcwd).text hd

/-! A run about a file, with a configuration that presets an exporter, and a run on an empty
standard input. -/

/-- A file with a task. -/
def taskText : String := "---\ntask 1\n---\n"

/-- A configuration. -/
def presetText : String := "default_exporter = \"plain\"\n"

/-- The files of both runs. -/
def taskTree : FileTree where
  workingDir := ["proj"]
  nodes := [
    (["proj"], .directory), (["proj", "tasks.md"], .file taskText.toUTF8),
    (["home"], .directory), (["home", ".config"], .directory),
    (["home", ".config", "task-burrito"], .directory),
    (["home", ".config", "task-burrito", "config.toml"], .file presetText.toUTF8)]

/-- The environment of the first run. -/
def homeEnvironment : List (String × String) := [("HOME", "/home")]

/-- The settings of the user of the first run. -/
def homeSettings? : Option Path :=
  UserDirs.configDir? (fun name => (homeEnvironment.find? fun v => v.1 = name).map Prod.snd) none

/-- The words of the first run, as they are understood. -/
def fileCall : Invocation := ⟨"tasks.md", ["fold=1"], none, .text, false⟩

/-- The words of the second run, as they are understood. -/
def emptyCall : Invocation := ⟨"-", ["Plain"], none, .text, false⟩

/-- The source of the first run. -/
def taskSource : Source := { text := taskText, path := some ⟨"tasks.md"⟩ }

theorem holds_taskText : taskTree.Holds ⟨"tasks.md"⟩ taskText := by
  refine ⟨["proj", "tasks.md"], taskText.toUTF8, FileTree.resolve_of_follow (by decide)
    (by decide) (by decide) ?_, rfl, by decide +kernel⟩
  have hsteps : FileTree.steps ⟨"tasks.md"⟩ = [.name "tasks.md"] := by decide +kernel
  rw [hsteps, FileTree.follow_name (.file taskText.toUTF8) rfl (by decide) rfl nofun,
    FileTree.follow]
  rfl

theorem holds_presetText :
    taskTree.Holds (Path.join ⟨"/home/.config/task-burrito"⟩ ⟨"config.toml"⟩) presetText := by
  have hpath : Path.join ⟨"/home/.config/task-burrito"⟩ ⟨"config.toml"⟩ =
      ⟨"/home/.config/task-burrito/config.toml"⟩ := by decide +kernel
  rw [hpath]
  refine ⟨["home", ".config", "task-burrito", "config.toml"], presetText.toUTF8,
    FileTree.resolve_of_follow (by decide) (by decide) (by decide) ?_, rfl, by decide +kernel⟩
  have hsteps : FileTree.steps ⟨"/home/.config/task-burrito/config.toml"⟩ = [.here, .name "home",
      .name ".config", .name "task-burrito", .name "config.toml"] := by decide +kernel
  rw [hsteps, FileTree.follow_here rfl,
    FileTree.follow_name .directory rfl (by decide) rfl nofun,
    FileTree.follow_name .directory rfl (by decide) rfl nofun,
    FileTree.follow_name .directory rfl (by decide) rfl nofun,
    FileTree.follow_name (.file presetText.toUTF8) rfl (by decide) rfl nofun, FileTree.follow]
  rfl

theorem ready_fileCall : fileCall.Ready .usual taskTree homeSettings? .empty
    ⟨some .plain, ⟨true, false⟩⟩ .plain ["fold=1"] { fold := true } taskSource where
  loads := .user (by decide +kernel) holds_presetText (by decide +kernel)
  calls := .preset (by decide) rfl
  sets := ⟨[(.fold, true)], .cons (Options.readPair_eq_ok_iff.mp rfl) .nil, rfl⟩
  supplies := .file (by decide) holds_taskText

theorem ready_emptyCall : emptyCall.Ready .usual taskTree none .empty
    ⟨none, ⟨true, false⟩⟩ .plain [] {} { text := "" } where
  loads := .homeless rfl
  calls := .named (by decide) (by decide)
  sets := ⟨[], .nil, rfl⟩
  supplies := .stdin (by decide +kernel)

theorem render_taskSource (o : Options) :
    taskSource.render taskTree.workspace .plain o = ⟨taskText, []⟩ := by
  have hread : readDocument taskSource.origin taskSource.text =
      ⟨[Record.bare .first ⟨"tasks.md", 1⟩].map .task, []⟩ := rfl
  have hload := Source.load_of_tasks (w := taskTree.workspace) hread (List.cons_ne_nil _ _) rfl
    (by decide +kernel)
  have hwarnings : Dependencies.cycleWarnings
      (Outline.ofRecords [.bare .first ⟨"tasks.md", 1⟩]) = [] :=
    Dependencies.cycleWarnings_eq_nil (by decide +kernel)
  have htext : (Outline.ofRecords [.bare .first ⟨"tasks.md", 1⟩]).plainText = taskText := by
    decide +kernel
  rw [Source.render_of_load hload, hwarnings]
  exact congrArg (fun text => (⟨text, []⟩ : Report)) htext

theorem render_emptySource (o : Options) :
    Source.render { text := "" } taskTree.workspace .plain o =
      ⟨"", [⟨.error, none, .malformed (.noTasks "<stdin>")⟩]⟩ := by
  have hrecords : Source.records { text := "" } taskTree.workspace = ⟨[], []⟩ :=
    Source.records_of_tasks rfl
  have hload : Source.load { text := "" } taskTree.workspace [] =
      (none, [⟨.error, none, .malformed (.noTasks "<stdin>")⟩]) := by
    rw [Source.load_of_empty] <;> rw [hrecords] <;> rfl
  exact Source.render_of_load_none hload _ _

/-- The first run writes its report, and says that the option is passed over.  The second
fails since there are no tasks. -/
theorem run_agrees_calls :
    let file := taskTree.host homeEnvironment homeSettings? .empty
    let empty := taskTree.host [] none .empty
    let written := runCommand .usual file ["tasks.md", "fold=1"]
    let failed := runCommand .usual empty ["-", "Plain"]
    (Readers.usual.arguments file.lookupEnv ["tasks.md", "fold=1"] = .ok fileCall ∧
      Readers.usual.arguments empty.lookupEnv ["-", "Plain"] = .ok emptyCall) ∧
    (OneLine fileCall.input ∧ OneLine emptyCall.input ∧
      OneLine taskTree.workspace.workingDir.text) ∧
    (written.exitCode = 0 ∧ written.output = "---\ntask 1\n---\n" ∧
      written.errors = unlines ["warning: The plain exporter ignores options"]) ∧
    (failed.exitCode = 1 ∧ failed.output = "" ∧
      failed.errors = unlines ["error[syntax]: <stdin> contains no tasks",
        "Failed with 1 error"]) := by
  intro file empty written failed
  have hcwd : OneLine taskTree.workspace.workingDir.text := by
    have htext : taskTree.workspace.workingDir.text = "/proj" := rfl
    exact htext ▸ .of_chars (by decide)
  have hfile : OneLine fileCall.input := .of_chars (by decide)
  have hempty : OneLine emptyCall.input := .of_chars (by decide)
  obtain ⟨-, -, hzero, hready⟩ := run_agrees .usual taskTree homeEnvironment homeSettings? .empty
    ["tasks.md", "fold=1"] fileCall rfl hfile hcwd
  obtain ⟨hcode, hcodes, -, hfailed⟩ := run_agrees .usual taskTree [] none .empty
    ["-", "Plain"] emptyCall rfl hempty hcwd
  refine ⟨⟨rfl, rfl⟩, ⟨hfile, hempty, hcwd⟩, ?_, ?_⟩
  · have hsuccess : written.exitCode = 0 := by
      refine hzero.mpr ⟨_, _, _, _, _, ready_fileCall, fun d hd => ?_⟩
      rw [render_taskSource] at hd
      cases hd
    obtain ⟨houtput, herrors⟩ := hready _ _ _ _ _ ready_fileCall
    refine ⟨hsuccess, (houtput hsuccess).trans ?_, (herrors rfl).1.trans ?_⟩
    · rw [render_taskSource]
      rfl
    · rw [render_taskSource]
      rfl
  · obtain ⟨houtput, herrors⟩ := hfailed _ _ _ _ _ ready_emptyCall
    -- a run that succeeds would have something to write
    have hcode' : failed.exitCode ≠ 0 := by
      intro h
      refine hcode.mpr h ((houtput h).trans ?_)
      rw [render_emptySource]
    refine ⟨hcodes.resolve_left hcode', ?_, (herrors rfl).1.trans ?_⟩
    · by_contra h
      exact hcode' (hcode.mp h)
    · rw [render_emptySource]
      show unlines [Diagnostic.text ⟨.error, none, .malformed (.noTasks "<stdin>")⟩,
        "Failed with " ++ natText 1 ++ " error" ++ ""] = _
      rw [natText_of_lt (by decide)]
      rfl

end Invocation

end TaskOutline
