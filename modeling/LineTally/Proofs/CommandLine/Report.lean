import LineTally.Proofs.Candidates.Contract
import LineTally.Proofs.CommandLine.Arguments
import LineTally.Proofs.Survey.Events

/-!
# What a run prints

A run is given a tree, a log setting and some arguments. It refuses the arguments and prints
nothing, or prints the help text, the version, or one report with a line feed
(`CommandLine.run_prints_report`). The setting has no say in any of it: it is read after the
arguments, and only picks events for the log out of those that there are. All events are of level
`debug`, so the setting of that name picks all of them, and every other log is part of that one
(`CommandLine.Reports`).
-/

set_option autoImplicit false

namespace LineTally

/-! ## 1. Log settings -/

/-- The setting under which every event is logged. -/
def LogFilter.everything : Option Bytes := some (.ofText "debug")

namespace LogFilter

/-- A single directive about all events decides by its level. -/
theorem passes_level (level : LogLevel) (e : Event) :
    (LogFilter.mk [⟨[], .events none, level⟩]).passes e = level.includesDebug := rfl

theorem ofSetting_none : ofSetting none = standard := rfl

theorem ofSetting_everything : ofSetting everything = ⟨[⟨[], .events none, .debug⟩]⟩ := by
  decide

theorem filter_passes_none (events : List Event) :
    events.filter (ofSetting none).passes = [] := by
  rw [List.filter_eq_nil_iff]
  intro e _
  rw [ofSetting_none, standard, passes_level]
  decide

theorem filter_passes_everything (events : List Event) :
    events.filter (ofSetting everything).passes = events := by
  rw [List.filter_eq_self]
  intro e _
  rw [ofSetting_everything, passes_level]
  decide

end LogFilter

namespace CommandLine

open Argument (IsPlain twoHyphens)

/-- What happens when a path is reported on: the events of counting, and that it is finished. -/
def eventsOn (t : FileTree) (path : Path) : List Event :=
  (t.survey .standard path).events ++ [.finished path (t.tally .standard path)]

/-- Events as they are printed. -/
def printedEvents (events : List Event) : List (List Char) :=
  events.flatMap fun e => diagnosticLines e.line

/-- **That some arguments are reported on**, whatever the log setting: the report on a path and a
line feed are printed, and the log is taken from the events on that path; under `everything` it is
all of them. -/
structure Reports (t : FileTree) (arguments : List Bytes) (path : Path) : Prop where
  code : ∀ setting, (run t setting arguments).code = 0
  output : ∀ setting,
    (run t setting arguments).output = (t.tally .standard path).report ++ ['\n']
  logged : ∀ setting, ∃ events : List Event, events.Sublist (eventsOn t path) ∧
    (run t setting arguments).diagnostics = printedEvents events
  everything :
    (run t LogFilter.everything arguments).diagnostics = printedEvents (eventsOn t path)

variable {t : FileTree} {path : Path} {arguments : List Bytes} {setting : Option Bytes}

/-! ## 2. The report on a path -/

theorem reportOn_eq (t : FileTree) (filter : LogFilter) (path : Path) :
    reportOn t filter path = ⟨0, (t.tally .standard path).report ++ ['\n'],
      printedEvents ((eventsOn t path).filter filter.passes)⟩ := rfl

theorem run_of_report (h : Command.ofArguments arguments = .ok (.report path)) :
    run t setting arguments = reportOn t (.ofSetting setting) path := by
  rw [run, h]

theorem reports_of_report (h : Command.ofArguments arguments = .ok (.report path)) :
    Reports t arguments path where
  code setting := by rw [run_of_report h, reportOn_eq]
  output setting := by rw [run_of_report h, reportOn_eq]
  logged setting := by
    rw [run_of_report h, reportOn_eq]
    exact ⟨_, List.filter_sublist, rfl⟩
  everything := by
    rw [run_of_report h, reportOn_eq, LogFilter.filter_passes_everything]

theorem diagnosticLines_ne_nil (text : List Char) : diagnosticLines text ≠ [] := by
  unfold diagnosticLines
  rw [ne_eq, List.map_eq_nil_iff]
  exact separated_ne_nil _ _

theorem printedEvents_eventsOn_ne_nil (t : FileTree) (path : Path) :
    printedEvents (eventsOn t path) ≠ [] := by
  simp [printedEvents, eventsOn, diagnosticLines_ne_nil]

/-- The program itself has one thing to say, and says it last. -/
theorem own_eventsOn (t : FileTree) (path : Path) :
    (eventsOn t path).filter (fun e => e.target = "javaloc") =
      [.finished path (t.tally .standard path)] := by
  have hnone : (t.survey .standard path).events.filter (fun e => e.target = "javaloc") = [] := by
    rw [List.filter_eq_nil_iff]
    intro e he
    cases e with
    | finished => exact absurd he FileTree.finished_notMem_survey
    | _ => simp [Event.target]
  rw [eventsOn, List.filter_append, hnone, List.nil_append]
  rfl

/-! ## 3. All runs -/

/-- The four ways a run may go. -/
theorem run_cases (t : FileTree) (arguments : List Bytes) :
    (∃ lines, ∀ setting, run t setting arguments = ⟨2, [], lines⟩) ∨
    (∀ setting, run t setting arguments = ⟨0, printed helpLines, []⟩) ∨
    (∀ setting, run t setting arguments = ⟨0, printed versionLines, []⟩) ∨
    ∃ path, Command.ofArguments arguments = .ok (.report path) := by
  cases hask : Command.ofArguments arguments with
  | error e => exact Or.inl ⟨_, fun setting => by rw [run, hask]⟩
  | ok command =>
    cases command with
    | help => exact Or.inr (Or.inl fun setting => by rw [run, hask])
    | version => exact Or.inr (Or.inr (Or.inl fun setting => by rw [run, hask]))
    | report path => exact Or.inr (Or.inr (Or.inr ⟨path, rfl⟩))

/-- With every event logged a report leaves a log behind, and nothing else does with code 0. -/
theorem exists_report_of_reports (h : Reports t arguments path) :
    ∃ other, Command.ofArguments arguments = .ok (.report other) := by
  have hlog := printedEvents_eventsOn_ne_nil t path
  rw [← h.everything] at hlog
  rcases run_cases t arguments with ⟨lines, hrun⟩ | hrun | hrun | hreport
  · have hcode := h.code none
    rw [hrun] at hcode
    cases hcode
  · rw [hrun] at hlog
    exact absurd rfl hlog
  · rw [hrun] at hlog
    exact absurd rfl hlog
  · exact hreport

theorem code_zero_or_two (t : FileTree) (setting : Option Bytes) (arguments : List Bytes) :
    (run t setting arguments).code = 0 ∨ (run t setting arguments).code = 2 := by
  rcases run_cases t arguments with ⟨lines, hrun⟩ | hrun | hrun | ⟨path, hreport⟩
  · exact Or.inr (by rw [hrun])
  · exact Or.inl (by rw [hrun])
  · exact Or.inl (by rw [hrun])
  · exact Or.inl ((reports_of_report hreport).code setting)

theorem output_of_refused (h : (run t setting arguments).code = 2) :
    (run t setting arguments).output = [] := by
  rcases run_cases t arguments with ⟨lines, hrun⟩ | hrun | hrun | ⟨path, hreport⟩
  · rw [hrun]
  · simp [hrun] at h
  · simp [hrun] at h
  · simp [(reports_of_report hreport).code setting] at h

theorem run_of_accepted (h : (run t setting arguments).code = 0) :
    run t setting arguments = ⟨0, printed helpLines, []⟩ ∨
    run t setting arguments = ⟨0, printed versionLines, []⟩ ∨
    ∃ path ∈ arguments, Reports t arguments path := by
  rcases run_cases t arguments with ⟨lines, hrun⟩ | hrun | hrun | ⟨path, hreport⟩
  · simp [hrun] at h
  · exact Or.inl (hrun setting)
  · exact Or.inr (Or.inl (hrun setting))
  · have hmem := (Command.ofArguments_eq_report_iff.mp hreport).2.mem
    exact Or.inr (Or.inr ⟨path, hmem, reports_of_report hreport⟩)

/-- The setting is for the log alone. -/
theorem run_other_setting (t : FileTree) (setting other : Option Bytes) (arguments : List Bytes) :
    (run t other arguments).code = (run t setting arguments).code ∧
      (run t other arguments).output = (run t setting arguments).output := by
  rcases run_cases t arguments with ⟨lines, hrun⟩ | hrun | hrun | ⟨path, hreport⟩
  · simp [hrun]
  · simp [hrun]
  · simp [hrun]
  · have hreports : Reports t arguments path := reports_of_report hreport
    rw [hreports.code, hreports.code, hreports.output, hreports.output]
    exact ⟨rfl, rfl⟩

theorem diagnostics_without_setting (h : (run t none arguments).code = 0) :
    (run t none arguments).diagnostics = [] := by
  rcases run_cases t arguments with ⟨lines, hrun⟩ | hrun | hrun | ⟨path, hreport⟩
  · simp [hrun] at h
  · rw [hrun]
  · rw [hrun]
  · rw [run_of_report hreport, reportOn_eq, LogFilter.filter_passes_none]
    rfl

/-! ## 4. One path -/

theorem reports_alone (hne : path ≠ []) (hplain : IsPlain path) : Reports t [path] path :=
  reports_of_report (Command.ofArguments_eq_report_iff.mpr ⟨hne, .alone hplain⟩)

theorem reports_afterHyphens (hne : path ≠ []) : Reports t [twoHyphens, path] path :=
  reports_of_report (Command.ofArguments_eq_report_iff.mpr ⟨hne, .afterHyphens⟩)

/-- Where a path by itself is reported on, it may as well stand after two hyphens. -/
theorem run_afterHyphens_of_alone {other : Path} (h : Reports t [path] other) :
    run t setting [path] = run t setting [twoHyphens, path] := by
  obtain ⟨given, hask⟩ := exists_report_of_reports h
  obtain ⟨hne, hgives⟩ := Command.ofArguments_eq_report_iff.mp hask
  cases hgives
  have hask' := Command.ofArguments_eq_report_iff.mpr ⟨hne, .afterHyphens⟩
  rw [run_of_report hask, run_of_report hask']

/-- **A run prints one thing or refuses**, for every tree, log setting and list of arguments. The
code is 0 or 2, and with 2 nothing is printed. With 0 it is the help text, the version, or the
report on one of the arguments with a line feed. Code and output are the same under every setting,
and without one there is no log. A path by itself is reported on unless it is empty or looks like a
flag, and after `--` unless it is empty, which makes no difference to what is printed where both are
reported on. Of the events on a path the last one is the program's own, and no other is. -/
theorem run_prints_report (t : FileTree) (setting : Option Bytes) (arguments : List Bytes) :
    ((run t setting arguments).code = 0 ∨ (run t setting arguments).code = 2) ∧
    ((run t setting arguments).code = 2 → (run t setting arguments).output = []) ∧
    ((run t setting arguments).code = 0 →
      run t setting arguments = ⟨0, printed helpLines, []⟩ ∨
      run t setting arguments = ⟨0, printed versionLines, []⟩ ∨
      ∃ path ∈ arguments, Reports t arguments path) ∧
    (∀ other, (run t other arguments).code = (run t setting arguments).code ∧
      (run t other arguments).output = (run t setting arguments).output) ∧
    ((run t none arguments).code = 0 → (run t none arguments).diagnostics = []) ∧
    (∀ path : Path, path ≠ [] →
      (IsPlain path → Reports t [path] path) ∧ Reports t [twoHyphens, path] path) ∧
    (∀ path q r : Path, Reports t [path] q → Reports t [twoHyphens, path] r →
      run t setting [path] = run t setting [twoHyphens, path]) ∧
    ∀ path, (eventsOn t path).filter (fun e => e.target = "javaloc") =
      [.finished path (t.tally .standard path)] := by
  refine ⟨code_zero_or_two t setting arguments, output_of_refused, run_of_accepted,
    fun other => run_other_setting t setting other arguments, diagnostics_without_setting, ?_, ?_,
    own_eventsOn t⟩
  · intro path hne
    exact ⟨reports_alone hne, reports_afterHyphens hne⟩
  · intro path q r hpath _
    exact run_afterHyphens_of_alone hpath

/-- A file whose name looks like a flag. -/
def dashed : FileTree where
  items := [
    ([], .directory .newDirectory),
    ([.ofText "-h.java"], .file .newFile (.ofText "int h;\n"))]
  workingDirectory := []
  distinct := by decide
  proper := by decide

/-- By itself the name asks for help; after `--` it is the path of the file. -/
theorem run_prints_report_dashed :
    (run dashed none [.ofText "-h.java"]).output = printed helpLines ∧
      Reports dashed [twoHyphens, .ofText "-h.java"] (.ofText "-h.java") ∧
      (run dashed none [twoHyphens, .ofText "-h.java"]).output = "1-1-0-0-1\n".toList ∧
      Reports dashed [Name.dot] Name.dot ∧
      run dashed none [Name.dot] = run dashed none [twoHyphens, Name.dot] ∧
      (run dashed none [.ofText "-x"]).output = [] := by
  obtain ⟨_, hrefused, _, _, _, hpaths, hsame, _⟩ :=
    run_prints_report dashed none [.ofText "-x"]
  obtain ⟨_, hdashed⟩ := hpaths (.ofText "-h.java") (by decide)
  obtain ⟨halone, hafter⟩ := hpaths Name.dot (by decide)
  have hdot := halone (by decide)
  refine ⟨rfl, hdashed, ?_, hdot, hsame _ _ _ hdot hafter, hrefused (by decide)⟩
  rw [hdashed.output]
  decide +kernel

end CommandLine

end LineTally
