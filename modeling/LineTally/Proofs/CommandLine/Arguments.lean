import LineTally.CommandLine

/-!
# Which arguments ask for a report

The arguments are read from left to right with at most one path in hand, so a report is asked for in
very few ways. `Command.ofArguments_eq_report_iff` lists them **all**: the path by itself, the path
after `--`, and the path before `--`. Only after `--` may the path look like a flag.

An argument is `--`, or a path wherever it stands (`Argument.IsPlain`), or a flag; what a reader does
with each of the three is said once, path in hand or not. A flag never leads to a report, and a path
in hand leaves room for nothing but `--`.
-/

set_option autoImplicit false

namespace LineTally

namespace Argument

/-- The argument after which everything is a path. -/
def twoHyphens : Bytes := [hyphen, hyphen]

/-- An argument that is a path wherever it stands: it does not start with a hyphen, or is nothing
but one. -/
def IsPlain (argument : Bytes) : Prop := argument.head? ≠ some hyphen ∨ argument = [hyphen]

instance (argument : Bytes) : Decidable (IsPlain argument) :=
  inferInstanceAs (Decidable (_ ∨ _))

variable {argument name letters : Bytes} {value? : Option Bytes} {command : Command}

/-! ## 1. The form of an argument -/

theorem ofBytes_of_isPlain (h : IsPlain argument) : ofBytes argument = .positional argument := by
  unfold ofBytes
  split
  · rename_i a b rest
    rcases h with h | h
    · rw [if_neg (fun ha => h (congrArg some ha))]
    · cases h
  · rfl

theorem ofBytes_of_not_isPlain (h : ¬ IsPlain argument) (hne : argument ≠ twoHyphens) :
    (∃ name value?, ofBytes argument = .longFlag name value?) ∨
      ∃ letters, ofBytes argument = .shortFlags letters := by
  obtain ⟨hhead, hmore⟩ := not_or.mp h
  match argument, Decidable.not_not.mp hhead with
  | [_], rfl => exact absurd rfl hmore
  | _ :: b :: rest, rfl =>
    by_cases hb : b = hyphen
    · subst hb
      cases rest with
      | nil => exact absurd rfl hne
      | cons c rest =>
        refine Or.inl ?_
        change ∃ name value?, ofLong (c :: rest) = .longFlag name value?
        unfold ofLong
        split
        · exact ⟨_, _, rfl⟩
        · exact ⟨_, _, rfl⟩
    · refine Or.inr ⟨b :: rest, ?_⟩
      rw [ofBytes, if_pos rfl, if_neg hb]

/-! ## 2. Flags -/

theorem flags_help_or_version : ∀ f ∈ flags, f.2.2 = .help ∨ f.2.2 = .version := by
  decide

theorem flag_of_readLong (h : readLong name value? = .ok command) :
    command = .help ∨ command = .version := by
  unfold readLong at h
  dsimp only at h
  split at h
  · cases h
  · cases h
  · rename_i flag found hfound
    cases h
    obtain ⟨text, -, hnamed⟩ := Option.bind_eq_some_iff.mp hfound
    obtain ⟨f, hf, hpair⟩ := Option.map_eq_some_iff.mp hnamed
    cases hpair
    exact flags_help_or_version f (List.mem_of_find?_eq_some hf)

theorem flag_of_readShort (h : readShort letters = .ok command) :
    command = .help ∨ command = .version := by
  unfold readShort at h
  split at h
  · split at h
    · rename_i found hfound
      cases h
      obtain ⟨f, hf, rfl⟩ := Option.map_eq_some_iff.mp hfound
      exact flags_help_or_version f (List.mem_of_find?_eq_some hf)
    · cases h
  · cases h

end Argument

namespace Command

open Argument (IsPlain twoHyphens)

/-- **The three ways to ask for a report** on a path. -/
inductive GivesPath (path : Path) : List Bytes → Prop
  | alone (plain : IsPlain path) : GivesPath path [path]
  | afterHyphens : GivesPath path [twoHyphens, path]
  | beforeHyphens (plain : IsPlain path) : GivesPath path [path, twoHyphens]

variable {argument : Bytes} {path given : Path} {path? : Option Path} {rest arguments : List Bytes}
  {result : Except UsageError Command}

theorem GivesPath.mem (h : GivesPath path arguments) : path ∈ arguments := by
  cases h with
  | alone => exact List.mem_cons_self
  | afterHyphens => exact List.mem_cons_of_mem _ List.mem_cons_self
  | beforeHyphens => exact List.mem_cons_self

/-! ## 3. One argument more -/

theorem ofArgumentsAfter_twoHyphens :
    ofArgumentsAfter path? (twoHyphens :: rest) = ofPaths path? rest := rfl

theorem ofArgumentsAfter_none_of_isPlain (h : IsPlain argument) :
    ofArgumentsAfter none (argument :: rest) = ofArgumentsAfter (some argument) rest := by
  rw [ofArgumentsAfter, Argument.ofBytes_of_isPlain h]

theorem ofArgumentsAfter_some_of_isPlain (h : IsPlain argument) :
    ofArgumentsAfter (some given) (argument :: rest) =
      .error (.unexpectedArgument (Utf8.decodeLossy argument)) := by
  rw [ofArgumentsAfter, Argument.ofBytes_of_isPlain h]

theorem afterPath_ne_report (hflag : ∀ c, result = .ok c → c = .help ∨ c = .version) :
    afterPath path? result ≠ .ok (.report path) := by
  unfold afterPath
  split
  · simp
  · rename_i c
    split
    · simp
    · rcases hflag c rfl with hc | hc <;> simp [hc]

/-- Whatever is in hand, a flag does not lead to a report. -/
theorem ofArgumentsAfter_flag (h : ¬ IsPlain argument) (hne : argument ≠ twoHyphens) :
    ofArgumentsAfter path? (argument :: rest) ≠ .ok (.report path) := by
  rw [ofArgumentsAfter]
  rcases Argument.ofBytes_of_not_isPlain h hne with ⟨name, value?, hform⟩ | ⟨letters, hform⟩
  · rw [hform]
    exact afterPath_ne_report fun c => Argument.flag_of_readLong
  · rw [hform]
    exact afterPath_ne_report fun c => Argument.flag_of_readShort

/-! ## 4. All arguments -/

theorem conclude_eq_report_iff :
    conclude path? = .ok (.report path) ↔ path ≠ [] ∧ path? = some path := by
  unfold conclude
  split
  · simp
  · simp
  · rename_i given hgiven
    simp only [Except.ok.injEq, Command.report.injEq, Option.some.injEq]
    constructor
    · rintro rfl
      exact ⟨hgiven, rfl⟩
    · exact And.right

theorem ofPaths_some_eq_report_iff : ofPaths (some given) rest = .ok (.report path) ↔
    path ≠ [] ∧ given = path ∧ rest = [] := by
  cases rest with
  | nil => simp [ofPaths, conclude_eq_report_iff]
  | cons argument rest => simp [ofPaths]

theorem ofPaths_none_eq_report_iff : ofPaths none rest = .ok (.report path) ↔
    path ≠ [] ∧ rest = [path] := by
  cases rest with
  | nil => simp [ofPaths, conclude_eq_report_iff]
  | cons argument rest => simp [ofPaths, ofPaths_some_eq_report_iff]

/-- With a path in hand, nothing may follow but `--`. -/
theorem ofArgumentsAfter_some_eq_report_iff :
    ofArgumentsAfter (some given) rest = .ok (.report path) ↔
      path ≠ [] ∧ given = path ∧ (rest = [] ∨ rest = [twoHyphens]) := by
  cases rest with
  | nil => simp [ofArgumentsAfter, conclude_eq_report_iff]
  | cons argument rest =>
    by_cases hhyphens : argument = twoHyphens
    · rw [hhyphens, ofArgumentsAfter_twoHyphens, ofPaths_some_eq_report_iff]
      simp
    · by_cases hplain : IsPlain argument
      · rw [ofArgumentsAfter_some_of_isPlain hplain]
        simp [hhyphens]
      · simpa [hhyphens] using ofArgumentsAfter_flag hplain hhyphens

/-- **A report is asked for in three ways only**, and in each of them on a path that is not
empty. -/
theorem ofArguments_eq_report_iff : ofArguments arguments = .ok (.report path) ↔
    path ≠ [] ∧ GivesPath path arguments := by
  rw [ofArguments]
  constructor
  · intro h
    cases arguments with
    | nil => cases h
    | cons argument rest =>
      by_cases hhyphens : argument = twoHyphens
      · rw [hhyphens, ofArgumentsAfter_twoHyphens, ofPaths_none_eq_report_iff] at h
        obtain ⟨hne, rfl⟩ := h
        exact ⟨hne, hhyphens ▸ .afterHyphens⟩
      · by_cases hplain : IsPlain argument
        · rw [ofArgumentsAfter_none_of_isPlain hplain, ofArgumentsAfter_some_eq_report_iff] at h
          obtain ⟨hne, rfl, rfl | rfl⟩ := h
          · exact ⟨hne, .alone hplain⟩
          · exact ⟨hne, .beforeHyphens hplain⟩
        · exact absurd h (ofArgumentsAfter_flag hplain hhyphens)
  · rintro ⟨hne, hgives⟩
    cases hgives with
    | alone hplain =>
      rw [ofArgumentsAfter_none_of_isPlain hplain, ofArgumentsAfter_some_eq_report_iff]
      exact ⟨hne, rfl, Or.inl rfl⟩
    | afterHyphens =>
      rw [ofArgumentsAfter_twoHyphens, ofPaths_none_eq_report_iff]
      exact ⟨hne, rfl⟩
    | beforeHyphens hplain =>
      rw [ofArgumentsAfter_none_of_isPlain hplain, ofArgumentsAfter_some_eq_report_iff]
      exact ⟨hne, rfl, Or.inr rfl⟩

/-- The second `--` is a path. -/
example : ofArguments [twoHyphens, twoHyphens] = .ok (.report twoHyphens) := rfl

end Command

end LineTally
