import Scriptlet.CommandLine.Basic
import Scriptlet.Proofs.Evaluation.Arithmetic
import Scriptlet.Proofs.Evaluation.Depth
import Scriptlet.Proofs.Evaluation.Rules
import Scriptlet.Proofs.Shell.Sessions

/-!
# Reports

A source can be handed to the command line or typed at a new shell.  Both run it in a new session, and each
has its own way to tell what has come of it.

**Arguments.**  The flag may stand anywhere and any number of times.  If one argument is left without it,
that is where the source comes from, and it is the source itself if it names no file.

**Telling the outcome.**  The command line tells errors by its exit code and writes them to the second
channel.  A shell has no exit code, and shows an error value like any other.

**The host.**  Both work on the stack of the host, which may leave one of them less than the other, and words
it in its own way when the stack is full.  So two depths of calls, two outcomes and two wordings are told apart
here, for any host.  A greater depth only ever changes an outcome that is too deep.

**Values too deep to be shown.**  Calls that nest too deeply are reported by both.  A value may be nested too
deeply as well, but its text is made after the run, and neither handles that.

**Results.**
* `execute_of_source`: what the command line does with a source among its arguments.
* `runProgramWithin_outcomes`: what a program comes to where calls may nest to one depth or another.
* `reports_correspond`: what the command line reports, told from what a shell answers.
* `start_wrap`: a function that nests an array as deeply as it is told to.
* `deep_value_is_not_reported`: a short source whose value cannot be shown.
-/

namespace Scriptlet

namespace CommandLine

section Arguments

variable {settings : Settings} {arguments : List String} {argument source : String}

/-- The arguments without the flag. -/
def withoutFlag (arguments : List String) : List String :=
  arguments.filter (· ≠ traceFlag)

/-- The settings that arguments leave: host traces are shown if the flag is among them. -/
def settingsAfter (settings : Settings) (arguments : List String) : Settings :=
  if traceFlag ∈ arguments then settings.setTracing true else settings

theorem settingsAfter_of_not_flag (h : argument ≠ traceFlag) :
    settingsAfter settings (argument :: arguments) = settingsAfter settings arguments := by
  have hmem : traceFlag ∈ argument :: arguments ↔ traceFlag ∈ arguments := by
    rw [List.mem_cons, or_iff_right (Ne.symm h)]
  simp only [settingsAfter, hmem]

/-- Once host traces are shown, the flag changes nothing. -/
theorem settingsAfter_setTracing (settings : Settings) (arguments : List String) :
    settingsAfter (settings.setTracing true) arguments = settings.setTracing true := by
  unfold settingsAfter
  split <;> rfl

/-- The flag has no part in the limit on depth. -/
theorem limitInForce_settingsAfter (settings : Settings) (arguments : List String) :
    (settingsAfter settings arguments).limitInForce = settings.limitInForce := by
  unfold settingsAfter
  split <;> rfl

theorem readArguments_flag (settings : Settings) (found : Option String) (rest : List String) :
    readArguments settings found (traceFlag :: rest) =
      readArguments (settings.setTracing true) found rest := by
  cases found <;> simp only [readArguments, if_true]

theorem readArguments_of_not_flag (h : argument ≠ traceFlag) (rest : List String) :
    readArguments settings none (argument :: rest) = readArguments settings (some argument) rest := by
  simp only [readArguments, if_neg h]

/-- The one argument besides the flag is found, wherever the flag stands. -/
theorem readArguments_of_source (found : Option String)
    (h : found.toList ++ withoutFlag arguments = [source]) :
    readArguments settings found arguments = (settingsAfter settings arguments, .ok (some source)) := by
  induction arguments generalizing settings found with
  | nil =>
      cases found with
      | none => cases h
      | some first =>
          cases h
          rfl
  | cons argument rest ih =>
      by_cases hflag : argument = traceFlag
      · rw [withoutFlag, List.filter_cons_of_neg (by simpa using hflag)] at h
        have hsettings : settingsAfter settings (traceFlag :: rest) = settings.setTracing true :=
          if_pos List.mem_cons_self
        rw [hflag, readArguments_flag, ih found h, hsettings, settingsAfter_setTracing]
      · rw [withoutFlag, List.filter_cons_of_pos (by simpa using hflag)] at h
        cases found with
        | none => rw [readArguments_of_not_flag hflag, ih (some argument) h, settingsAfter_of_not_flag hflag]
        | some first => cases h

/-- An argument that is neither empty nor a dash nor the name of a file is run. -/
theorem execute_of_source [Host] {probe : String → FileAnswer} (stdin : String)
    (harguments : withoutFlag arguments = [source]) (hempty : source ≠ "") (hdash : source ≠ "-")
    (hprobe : probe source = .notFile) :
    execute settings stdin probe arguments = runSource (settingsAfter settings arguments) source := by
  have hname : SourceName.ofArgument (some source) = .named source := by
    unfold SourceName.ofArgument
    split
    · next h => cases h
    · next h => exact absurd (Option.some.inj h) hempty
    · next h => exact absurd (Option.some.inj h) hdash
    · next h => rw [Option.some.inj h]
  have hload : loadSource stdin probe (.named source) = .ok source := by
    simp only [loadSource, hprobe]
  rw [execute, readArguments_of_source none harguments]
  simp only [hname, hload]

end Arguments

section Outcomes

variable [Host] {settings typed : Settings} {v : Value} {outcome : Except Failure Value}

/-- A surface has the frames to show a value. -/
def Fits (surface : Surface) (v : Value) : Prop :=
  v.framesToShow Host.showing ≤ Host.framesLeft surface

theorem fits_null (surface : Surface) : Fits surface .null :=
  Host.fits_leaf surface .null

theorem fits_error (surface : Surface) (message : String) : Fits surface (.error message) :=
  Host.fits_leaf surface .error

/-- What is written of a value that is shown. -/
def written : Value → Output
  | .null => .none
  | v => .out (v.display ++ "\n")

theorem conclude_of_fits (hv : Fits .commandLine v) (settings : Settings) :
    conclude settings (.ok v) =
      if v.isError then (.code 1, .err (written v).stdout) else (.code 0, written v) := by
  cases v with
  | null => rfl
  | _ =>
      simp only [conclude, Value.shownWithin_of_le hv]
      rfl

theorem conclude_of_not_fits (hv : ¬Fits .commandLine v) (settings : Settings) :
    conclude settings (.ok v) = (.failure .tooDeep, .none) := by
  cases v with
  | null => exact absurd (fits_null _) hv
  | _ => simp only [conclude, Value.shownWithin_of_lt (Nat.lt_of_not_le hv)]

theorem resultOutput_of_fits (hv : Fits .shell v) (settings : Settings) :
    Shell.resultOutput settings (.ok v) = written v := by
  cases v with
  | null => rfl
  | _ =>
      simp only [Shell.resultOutput, Value.shownWithin_of_le hv]
      rfl

theorem unhandled?_of_fits (hv : Fits .shell v) : Shell.unhandled? (.ok v) = none := by
  cases v with
  | null => rfl
  | _ => simp only [Shell.unhandled?, Value.shownWithin_of_le hv]

theorem resultOutput_of_not_fits (hv : ¬Fits .shell v) (settings : Settings) :
    Shell.resultOutput settings (.ok v) = .none := by
  cases v with
  | null => rfl
  | _ => simp only [Shell.resultOutput, Value.shownWithin_of_lt (Nat.lt_of_not_le hv)]

theorem unhandled?_of_not_fits (hv : ¬Fits .shell v) :
    Shell.unhandled? (.ok v) = some .tooDeep := by
  cases v with
  | null => exact absurd (fits_null _) hv
  | _ => simp only [Shell.unhandled?, Value.shownWithin_of_lt (Nat.lt_of_not_le hv)]

/-- Whenever the exit code is one, nothing is on the first channel. -/
theorem stdout_of_conclude (hending : (conclude settings outcome).1 = .code 1) :
    (conclude settings outcome).2.stdout = "" := by
  cases outcome with
  | error failure =>
      cases failure with
      | malformed errors => rfl
      | tooDeep => rfl
      | _ => cases hending
  | ok v =>
      by_cases hv : Fits .commandLine v
      · rw [conclude_of_fits hv] at hending ⊢
        by_cases herror : v.isError = true
        · rw [if_pos herror]
          rfl
        · rw [if_neg herror] at hending
          cases hending
      · rw [conclude_of_not_fits hv] at hending
        cases hending

/-- How a report and the answer of a shell go together, given what the command line ran to and what the shell
did. -/
structure Corresponds (report : Report) (response : Shell.Response) (ran answered : Except Failure Value) :
    Prop where
  /-- Both ran to the same, unless calls were nested too deeply for one of them. -/
  outcomes : answered = ran ∨ (ran = .error .tooDeep ∧ ∃ v, answered = .ok v) ∨
    (answered = .error .tooDeep ∧ ∃ v, ran = .ok v)
  /-- No other failure is answered by both. -/
  failures : ∀ failure, ran = .error failure → failure = .tooDeep ∨ ∃ errors, failure = .malformed errors
  malformed : ∀ errors, ran = .error (.malformed errors) →
    report.ending = .code 1 ∧ response.failure = none ∧ response.output.stdout = "" ∧
      report.output = .err ("parser errors:\n" ++ response.output.stderr)
  reportTooDeep : ran = .error .tooDeep →
    report.ending = .code 1 ∧
      ∃ more, report.output = .err (tooDeepLine (Host.complaint .commandLine) ++ more)
  answerTooDeep : answered = .error .tooDeep →
    response.failure = none ∧
      ∃ further, response.output = .err (tooDeepLine (Host.complaint .shell) ++ further)
  errorValue : ∀ message, ran = .ok (.error message) → answered = ran →
    report.ending = .code 1 ∧ response.failure = none ∧ response.output.stderr = "" ∧
      report.output = .err response.output.stdout
  value : ∀ v, ran = .ok v → answered = ran → v.isError = false → Fits .commandLine v → Fits .shell v →
    report.ending = .code 0 ∧ response.failure = none ∧ report.output = response.output
  reportUnshown : ∀ v, ran = .ok v → ¬Fits .commandLine v →
    report.ending = .failure .tooDeep ∧ report.output = .none
  answerUnshown : ∀ v, answered = .ok v → ¬Fits .shell v →
    response.failure = some .tooDeep ∧ response.output = .none

section Correspondence

variable {report : Report} {response : Shell.Response} {ran answered : Except Failure Value}

/-- A program that was run is told by both. -/
theorem corresponds_of_answered
    (hran : ran = .error .tooDeep ∨ ∃ v, ran = .ok v)
    (houtcomes : answered = ran ∨ (ran = .error .tooDeep ∧ ∃ v, answered = .ok v) ∨
      (answered = .error .tooDeep ∧ ∃ v, ran = .ok v))
    (hreport : (report.ending, report.output) = conclude settings ran)
    (hfailure : response.failure = Shell.unhandled? answered)
    (houtput : response.output = Shell.resultOutput typed answered) :
    Corresponds report response ran answered where
  outcomes := houtcomes
  failures failure hfails := by
    rcases hran with rfl | ⟨v, rfl⟩
    · exact .inl (Except.error.inj hfails).symm
    · cases hfails
  malformed errors hfails := by
    rcases hran with rfl | ⟨v, rfl⟩
    · cases hfails
    · cases hfails
  reportTooDeep hdeep := by
    rw [hdeep, conclude, Prod.mk.injEq] at hreport
    exact ⟨hreport.1, _, hreport.2⟩
  answerTooDeep hdeep := by
    rw [hdeep] at hfailure houtput
    exact ⟨hfailure, _, houtput⟩
  errorValue message herror hsame := by
    rw [hsame, herror] at hfailure houtput
    rw [herror, conclude_of_fits (fits_error _ _), Prod.mk.injEq] at hreport
    rw [unhandled?_of_fits (fits_error _ _)] at hfailure
    rw [resultOutput_of_fits (fits_error _ _)] at houtput
    rw [houtput]
    exact ⟨hreport.1, hfailure, rfl, hreport.2⟩
  value v hvalue hsame herror hleft hright := by
    rw [hsame, hvalue] at hfailure houtput
    rw [hvalue, conclude_of_fits hleft, herror, if_neg Bool.false_ne_true, Prod.mk.injEq] at hreport
    rw [unhandled?_of_fits hright] at hfailure
    rw [resultOutput_of_fits hright] at houtput
    exact ⟨hreport.1, hfailure, hreport.2.trans houtput.symm⟩
  reportUnshown v hvalue hv := by
    rw [hvalue, conclude_of_not_fits hv, Prod.mk.injEq] at hreport
    exact hreport
  answerUnshown v hvalue hv := by
    rw [hvalue, unhandled?_of_not_fits hv] at hfailure
    rw [hvalue, resultOutput_of_not_fits hv] at houtput
    exact ⟨hfailure, houtput⟩

theorem corresponds_of_malformed {errors : List SyntaxError}
    (hran : ran = .error (.malformed errors)) (hanswered : answered = ran)
    (hreport : (report.ending, report.output) = conclude settings ran)
    (hfailure : response.failure = none)
    (houtput : response.output = .err (errorLines (errors.map SyntaxError.message) ++ "\n")) :
    Corresponds report response ran answered := by
  subst hanswered hran
  obtain ⟨hending, hwritten⟩ := Prod.mk.inj hreport
  have htold : report.output = .err ("parser errors:\n" ++ response.output.stderr) := by
    rw [hwritten, houtput]
    exact congrArg Output.err (String.append_assoc ..)
  refine ⟨.inl rfl, ?_, ?_, nofun, nofun, nofun, nofun, nofun, nofun⟩
  · rintro failure ⟨⟩
    exact .inr ⟨errors, rfl⟩
  · intro _ _
    exact ⟨hending, hfailure, by rw [houtput]; rfl, htold⟩

end Correspondence

section Runs

variable {source : String} {parsed : Parsed} {limit : Int}

omit [Host] in
/-- A program that is run where a limit is in force comes to a value or stops for depth. -/
theorem runProgramWithin_answered (hlimit : settings.limitInForce = .ok limit) (depth : Int → Nat)
    (scope : ScopeId) (p : Program) (h : Heap) :
    (runProgramWithin depth settings scope p h).1 = .error .tooDeep ∨
      ∃ v, (runProgramWithin depth settings scope p h).1 = .ok v := by
  have houtcome := outcome_runProgramWithin hlimit depth scope p h
  generalize ((Stmt.evalAll _ _ _ _).start h).1 = result at houtcome
  cases result with
  | error cause =>
      cases cause
      exact Or.inl houtcome
  | ok v => exact Or.inr ⟨_, houtcome⟩

omit [Host] in
/-- Where calls may nest to two depths, a program runs to the same, or is too deep for the smaller one. -/
theorem runProgramWithin_outcomes (hlimit : settings.limitInForce = .ok limit) (depth more : Int → Nat)
    (scope : ScopeId) (p : Program) (h : Heap) :
    let ran := (runProgramWithin depth settings scope p h).1
    let answered := (runProgramWithin more settings scope p h).1
    answered = ran ∨ (ran = .error .tooDeep ∧ ∃ v, answered = .ok v) ∨
      (answered = .error .tooDeep ∧ ∃ v, ran = .ok v) := by
  intro ran answered
  rcases runProgramWithin_answered hlimit depth scope p h with hran | ⟨v, hran⟩
  · rcases runProgramWithin_answered hlimit more scope p h with hanswered | hanswered
    · exact .inl (hanswered.trans hran.symm)
    · exact .inr (.inl ⟨hran, hanswered⟩)
  · rcases runProgramWithin_answered hlimit more scope p h with hanswered | ⟨w, hanswered⟩
    · exact .inr (.inr ⟨hanswered, v, hran⟩)
    · refine .inl ?_
      rcases Nat.le_total (depth limit) (more limit) with hle | hle
      · refine congrArg Prod.fst (evaluateWithin_of_le hlimit hle ?_)
        exact fun hdeep => nomatch hran.symm.trans hdeep
      · refine (congrArg Prod.fst (evaluateWithin_of_le hlimit hle ?_)).symm
        exact fun hdeep => nomatch hanswered.symm.trans hdeep

omit [Host] in
/-- Where calls may nest to one depth, a source runs to the same. -/
theorem runWithin_of_depth_eq (hlimit : settings.limitInForce = .ok limit) {depth more : Int → Nat}
    (hdepth : depth limit = more limit) (s : Session) (source : String) :
    s.runWithin depth settings source = s.runWithin more settings source := by
  simp only [Session.runWithin, Scriptlet.runWithin, runProgramWithin, evaluateWithin, hlimit, hdepth]

omit [Host] in
theorem runWithin_of_parse (depth : Int → Nat) (settings : Settings) (hparse : parse source = .ok parsed)
    (herrors : parsed.errors = []) :
    ((Session.new .default).runWithin depth settings source).1 =
      (runProgramWithin depth settings (Session.new .default).scope parsed.program
        (Session.new .default).heap).1 := by
  simp only [Session.runWithin, Scriptlet.runWithin, hparse, if_pos herrors]

omit [Host] in
theorem runWithin_malformed (depth : Int → Nat) (settings : Settings) (hparse : parse source = .ok parsed)
    (herrors : parsed.errors ≠ []) :
    ((Session.new .default).runWithin depth settings source).1 = .error (.malformed parsed.errors) := by
  simp only [Session.runWithin, Scriptlet.runWithin, hparse, if_neg herrors]

/-- The command line runs a source under its own settings; only the limit among them matters to the run. -/
theorem runSource_eq (hsame : settings.limitInForce = typed.limitInForce) (source : String) :
    ((runSource settings source).ending, (runSource settings source).output) =
      conclude settings
        ((Session.new .default).runWithin (Host.callDepth .commandLine) typed source).1 := by
  rw [← Session.runWithin_congr hsame]
  rfl

theorem submit_malformed (settings : Settings) (hparse : parse source = .ok parsed)
    (herrors : parsed.errors ≠ []) :
    ((Shell.new settings).submit source).failure = none ∧
      ((Shell.new settings).submit source).output =
        .err (errorLines (parsed.errors.map SyntaxError.message) ++ "\n") := by
  simp only [Shell.submit, hparse, if_neg herrors, and_self]

theorem submit_of_parse (settings : Settings) (hparse : parse source = .ok parsed)
    (herrors : parsed.errors = []) :
    let answered := ((Session.new .default).runWithin (Host.callDepth .shell) settings source).1
    ((Shell.new settings).submit source).failure = Shell.unhandled? answered ∧
      ((Shell.new settings).submit source).output = Shell.resultOutput settings answered := by
  intro answered
  have hanswered := runWithin_of_parse (Host.callDepth .shell) settings hparse herrors
  have hsubmit : (Shell.new settings).submit source = (Shell.new settings).runProgram parsed.program := by
    simp only [Shell.submit, hparse, if_pos herrors]
  have htree : (Shell.new settings).treeOutput parsed.program = .ok .none := rfl
  rw [hsubmit, Shell.runProgram, htree, show answered = _ from hanswered]
  exact ⟨rfl, Output.none_append _⟩

end Runs

end Outcomes

/-- Let a source be neither empty nor a dash and name no file, let the parser come to an end on it, and let a
limit on depth be in force.  The source is handed to the command line, with the flag among the arguments
anywhere and any number of times, or typed at a new shell under the same limit.

With syntax errors, the command line exits with one and writes a headline and what the shell writes to the
second channel.  With an error value, it exits with one and writes there what the shell writes to the first.
With calls nested too deeply, it exits with one, and both write a line first that has the wording of the host,
so the same line if the host words it alike for both.  With any other value that both have the frames to show,
it exits with zero, and both write the same; one of them that has not does not handle that.  Whenever the exit
code is one, nothing is on the first channel.

Both run the source to the same, but for calls that nest too deeply for one of them only; that cannot be where
the host allows both the same depth. -/
theorem reports_correspond [Host] {settings typed : Settings} {probe : String → FileAnswer}
    {arguments : List String} {source : String} {parsed : Parsed} {limit : Int} (stdin : String)
    (harguments : withoutFlag arguments = [source]) (hempty : source ≠ "") (hdash : source ≠ "-")
    (hprobe : probe source = .notFile) (hparse : parse source = .ok parsed)
    (hlimit : settings.limitInForce = .ok limit)
    (hsame : settings.limitInForce = typed.limitInForce) :
    let report := execute settings stdin probe arguments
    let response := (Shell.new typed).submit source
    let ran := ((Session.new .default).runWithin (Host.callDepth .commandLine) settings source).1
    let answered := ((Session.new .default).runWithin (Host.callDepth .shell) typed source).1
    Corresponds report response ran answered ∧
      (Host.callDepth .commandLine limit = Host.callDepth .shell limit → answered = ran) ∧
      (report.ending = .code 1 → report.output.stdout = "") := by
  intro report response ran answered
  have hreport : report = runSource (settingsAfter settings arguments) source :=
    execute_of_source stdin harguments hempty hdash hprobe
  have hconclude := runSource_eq (limitInForce_settingsAfter settings arguments) source
  rw [← hreport] at hconclude
  have htyped : answered =
      ((Session.new .default).runWithin (Host.callDepth .shell) settings source).1 :=
    congrArg Prod.fst (Session.runWithin_congr hsame.symm _ _ _)
  refine ⟨?_, fun hdepth => ?_, fun hending => ?_⟩
  · by_cases herrors : parsed.errors = []
    · obtain ⟨hfailure, houtput⟩ := submit_of_parse typed hparse herrors
      have hran : ran = _ := runWithin_of_parse _ settings hparse herrors
      have hanswered := htyped.trans (runWithin_of_parse _ settings hparse herrors)
      refine corresponds_of_answered ?_ ?_ hconclude hfailure houtput
      · rw [hran]
        exact runProgramWithin_answered hlimit _ _ _ _
      · rw [hran, hanswered]
        exact runProgramWithin_outcomes hlimit _ _ _ _ _
    · obtain ⟨hfailure, houtput⟩ := submit_malformed typed hparse herrors
      have hran : ran = _ := runWithin_malformed _ settings hparse herrors
      have hanswered := htyped.trans (runWithin_malformed _ settings hparse herrors)
      exact corresponds_of_malformed hran (hanswered.trans hran.symm) hconclude hfailure houtput
  · rw [htyped]
    exact congrArg Prod.fst (runWithin_of_depth_eq hlimit hdepth.symm _ _)
  · obtain ⟨hcode, hwritten⟩ := Prod.mk.inj hconclude
    rw [hwritten]
    exact stdout_of_conclude (hcode.symm.trans hending)

/-- An error between two flags: it is written to the second channel, and the shell writes it to the first. -/
theorem reports_correspond_between_flags :
    let arguments := [traceFlag, "1 / 0", traceFlag]
    let typed := Settings.unset.setTracing true
    let probe : String → FileAnswer := fun _ => .notFile
    let report := execute .unset "" probe arguments
    let response := (Shell.new typed).submit "1 / 0"
    withoutFlag arguments = ["1 / 0"] ∧
      Settings.unset.limitInForce = .ok defaultLimit ∧
      Settings.unset.limitInForce = typed.limitInForce ∧
      ((Session.new .default).runWithin callDepth .unset "1 / 0").1 = .ok (.error "division by zero") ∧
      report.ending = .code 1 ∧ report.output.stdout = "" ∧
      report.output = .err response.output.stdout ∧ response.failure = none := by
  intro arguments typed probe report response
  have hparse : parse "1 / 0" =
      .ok ⟨⟨[.expr (.binary (.integer 1) "/" (.integer 0))]⟩, []⟩ :=
    Parser.eq_ok_of_toOption (by decide +kernel)
  have harguments : withoutFlag arguments = ["1 / 0"] := by decide +kernel
  have hlimit : Settings.unset.limitInForce = .ok defaultLimit := rfl
  have hsame : Settings.unset.limitInForce = typed.limitInForce := rfl
  have hran : ((Session.new .default).runWithin callDepth .unset "1 / 0").1 =
      .ok (.error "division by zero") := by
    rw [runWithin_of_parse callDepth .unset hparse rfl, outcome_runProgramWithin hlimit,
      Stmt.startAll_expr, Expr.start_binary (Expr.start_integer 1) rfl (Expr.start_integer 0) rfl]
    rfl
  have hprobe : probe "1 / 0" = .notFile := rfl
  obtain ⟨hcorresponds, hdepth, hstdout⟩ := reports_correspond "" harguments (by decide) (by decide) hprobe
    hparse hlimit hsame
  obtain ⟨hending, hfailure, -, houtput⟩ := hcorresponds.errorValue _ hran (hdepth rfl)
  exact ⟨harguments, hlimit, hsame, hran, hending, hstdout hending, houtput, hfailure⟩

section DeepValues

variable {h : Heap} {scope : ScopeId} {serial : Nat}

/-- Whether there is nothing left to do. -/
def wrapTest : Expr :=
  .binary (.ident "n") "==" (.integer 0)

/-- One more array, and one less to come. -/
def wrapNext : Expr :=
  .call (.ident "f") [.binary (.ident "n") "-" (.integer 1), .array [.ident "a"]]

/-- The body of a function that puts an array into so many others as its first argument says. -/
def wrapBody : Block :=
  [.expr (.conditional wrapTest [.expr (.ident "a")] (some [.expr wrapNext]))]

/-- The function, as it is made in a scope. -/
def wrapIn (scope : ScopeId) (serial : Nat) : Closure :=
  ⟨serial, ["n", "a"], wrapBody, scope⟩

/-- The items of the outermost one of the arrays. -/
def wrapped : Nat → List Value → List Value
  | 0, items => items
  | n + 1, items => wrapped n [.array items]

theorem framesToShow_wrapped (cost : ShowingCost) (n : Nat) (items : List Value) :
    (Value.array (wrapped n items)).framesToShow cost =
      (Value.array items).framesToShow cost + cost.array * n := by
  induction n generalizing items with
  | zero => rfl
  | succ n ih =>
      rw [wrapped, ih, Nat.mul_succ]
      simp only [Value.framesToShow, Value.framesToShowAll, Nat.max_zero]
      omega

theorem applyBinary_pred {n : Nat} (hn : ((n + 1 : Nat) : Int) ≤ maxInteger) :
    applyBinary "-" (.integer (n + 1 : Nat)) (.integer 1) = .integer n := by
  have hpred : ((n + 1 : Nat) : Int) - 1 = n := by omega
  have hrange : inRange n = true := by
    rw [inRange_iff]
    unfold minInteger
    omega
  rw [applyBinary, applyInteger, hpred, checked_of_inRange hrange]

/-- The scope is that of a call with these arguments. -/
structure Wraps (h : Heap) (scope : ScopeId) (f : Closure) (n : Nat) (items : List Value) : Prop where
  made : scope < h.next
  f : h.resolve scope "f" = some (.function f)
  n : h.resolve scope "n" = some (.integer n)
  a : h.resolve scope "a" = some (.array items)

section Calls

variable {f : Closure} {n : Nat} {items : List Value} (hw : Wraps h scope f n items) (depth : Nat)
include hw

theorem Wraps.start_test :
    (wrapTest.eval (callWithin depth) scope).start h = (.ok (.boolean (n = 0)), h) := by
  have hzero : applyBinary "==" (.integer n) (.integer 0) = .boolean (n = 0) := by
    simp only [applyBinary, applyInteger, Int.natCast_eq_zero]
  rw [wrapTest, Expr.start_binary (Expr.start_ident hw.n) rfl (Expr.start_integer 0) rfl, hzero]

theorem Wraps.start_next {m : Nat} (hn : n = m + 1) (hrange : (n : Int) ≤ maxInteger) :
    (wrapNext.eval (callWithin depth) scope).start h =
      (callWithin depth (.function f) [.integer m, .array [.array items]]).start h := by
  have hpred : ((Expr.binary (.ident "n") "-" (.integer 1)).eval (callWithin depth) scope).start h =
      (.ok (.integer m), h) := by
    rw [Expr.start_binary (Expr.start_ident hw.n) rfl (Expr.start_integer 1) rfl, hn,
      applyBinary_pred (hn ▸ hrange)]
  have harray : ((Expr.array [.ident "a"]).eval (callWithin depth) scope).start h =
      (.ok (.array [.array items]), h) := by
    refine Expr.start_array ?_
    rw [Expr.startAll_singleton, Expr.start_ident hw.a]
    rfl
  rw [wrapNext, Expr.start_call (Expr.start_ident hw.f) rfl, Expr.startAll_cons hpred rfl,
    Expr.startAll_singleton, harray]
  rfl

end Calls

/-- A call makes the scope of its arguments. -/
theorem Wraps.of_call (hscope : scope < h.next)
    (hf : h.resolve scope "f" = some (.function (wrapIn scope serial))) (n : Nat) (items : List Value) :
    Wraps (h.addInside scope [("n", .integer n), ("a", .array items)]) h.next (wrapIn scope serial) n
      items := by
  have hmeans := Heap.resolve_addInside hscope [("n", .integer n), ("a", .array items)]
  exact ⟨h.next_lt_add _, (hmeans "f").trans hf, hmeans "n", hmeans "a"⟩

theorem start_wrapCall (hscope : scope < h.next)
    (hf : h.resolve scope "f" = some (.function (wrapIn scope serial))) (depth n : Nat)
    (items : List Value) :
    ∃ inside, h.Kept inside ∧ Wraps inside h.next (wrapIn scope serial) n items ∧
      ((callWithin (depth + 1) (.function (wrapIn scope serial)) [.integer n, .array items]).start h).1 =
        (if n = 0 then .ok (.array items)
          else ((wrapNext.eval (callWithin depth) h.next).start inside).1).map Value.unwrapped := by
  have hwraps := Wraps.of_call hscope hf n items
  refine ⟨_, h.kept_addInside scope _, hwraps, ?_⟩
  rw [start_callWithin_function]
  show ((Stmt.evalAll (callWithin depth) h.next .null wrapBody).start
    (h.addInside scope [("n", .integer n), ("a", .array items)])).1.map _ = _
  rw [wrapBody, Stmt.startAll_expr, Expr.start_conditional (hwraps.start_test depth) rfl]
  by_cases hn : n = 0
  · have htest : (Value.boolean (n = 0)).truthy = true := decide_eq_true hn
    rw [if_pos htest, if_pos hn, Stmt.startAll_expr, Expr.start_ident hwraps.a]
  · have htest : ¬(Value.boolean (n = 0)).truthy = true := by
      rw [Value.truthy, decide_eq_true_eq]
      exact hn
    rw [if_neg htest, if_neg hn]
    simp only [Stmt.startAll_expr]

/-- There is one call for every array, and one more.  The array that is wrapped grows from call to call, so
the induction on their number is for all arrays. -/
theorem start_wrap (hscope : scope < h.next)
    (hf : h.resolve scope "f" = some (.function (wrapIn scope serial))) {n : Nat}
    (hn : (n : Int) ≤ maxInteger) {depth : Nat} (hdepth : n < depth) (items : List Value) :
    ((callWithin depth (.function (wrapIn scope serial)) [.integer n, .array items]).start h).1 =
      .ok (.array (wrapped n items)) := by
  induction n generalizing h items depth scope with
  | zero =>
      cases depth with
      | zero => cases hdepth
      | succ depth =>
          obtain ⟨inside, -, -, hcall⟩ := start_wrapCall hscope hf depth 0 items
          rw [hcall, if_pos rfl]
          rfl
  | succ n ih =>
      cases depth with
      | zero => cases hdepth
      | succ depth =>
          obtain ⟨inside, hkept, hwraps, hcall⟩ := start_wrapCall hscope hf depth (n + 1) items
          have hscope' : scope < inside.next := Nat.lt_of_lt_of_le hscope hkept.next_le
          have hf' : inside.resolve scope "f" = some (.function (wrapIn scope serial)) := by
            rw [hkept.resolve hscope, hf]
          rw [hcall, if_neg (Nat.succ_ne_zero n), hwraps.start_next depth rfl hn,
            ih hscope' hf' (by omega) (Nat.lt_of_succ_lt_succ hdepth) [.array items]]
          rfl

/-- A program that puts an empty array into six hundred others. -/
def deepSource : String :=
  "let f = fn(n, a) \x7b if (n == 0) \x7b a \x7d else \x7b f(n - 1, [a]) \x7d \x7d; f(600, [])"

/-- The statements of the program. -/
def deepProgram : Program :=
  ⟨[.bind "f" (.function ["n", "a"] wrapBody), .expr (.call (.ident "f") [.integer 600, .array []])]⟩

theorem parse_deepSource : parse deepSource = .ok ⟨deepProgram, []⟩ :=
  Parser.eq_ok_of_toOption (by decide +kernel)

/-- The program, in a new scope that nothing encloses. -/
theorem startAll_deepProgram {depth : Nat} (hdepth : 600 < depth) (h : Heap) :
    ((Stmt.evalAll (callWithin depth) h.next .null deepProgram.statements).start
      (h.addRoot .default)).1 = .ok (.array (wrapped 600 [])) := by
  obtain ⟨after, hroot, hmeans, hstart⟩ := Stmt.startAll_bind_function (callWithin depth) h "f"
    ["n", "a"] wrapBody [.expr (.call (.ident "f") [.integer 600, .array []])] .null
  have hf : after.resolve h.next "f" = some (.function (wrapIn h.next h.serial)) := hmeans "f"
  rw [deepProgram, hstart, Stmt.startAll_expr, Expr.start_call (Expr.start_ident hf) rfl,
    Expr.startAll_cons (Expr.start_integer 600) rfl, Expr.startAll_singleton,
    Expr.start_array Expr.startAll_nil]
  exact start_wrap hroot hf (by decide) hdepth []

/-- The limit on depth is no obstacle, and the value is no error. -/
theorem runWithin_deepSource {settings : Settings} (hlimit : settings.limitInForce = .ok defaultLimit) :
    ((Session.new .default).runWithin callDepth settings deepSource).1 =
      .ok (.array (wrapped 600 [])) := by
  have hdepth : 600 < callDepth defaultLimit := by decide
  have houtcome := outcome_runProgramWithin hlimit callDepth Heap.empty.next deepProgram
    (Heap.empty.addRoot .default)
  rw [startAll_deepProgram hdepth .empty] at houtcome
  rw [runWithin_of_parse callDepth settings parse_deepSource rfl]
  -- The array is put out of sight: nothing is to unfold it.
  generalize wrapped 600 [] = items at houtcome ⊢
  exact houtcome

/-- Six hundred arrays in each other take more frames than are left, though they take as few as they can. -/
theorem not_fits_wrapped (surface : Surface) : ¬Fits surface (.array (wrapped 600 [])) := by
  rw [Fits, framesToShow_wrapped]
  show ¬2 + 2 * 600 ≤ Host.framesBelowBase
  decide

end DeepValues

/-- The program is read and run, and comes to an array.  It is too deep to be shown: the command line exits
with no code, and the shell does not answer. -/
theorem deep_value_is_not_reported :
    let report := execute .unset "" (fun _ => .notFile) [deepSource]
    withoutFlag [deepSource] = [deepSource] ∧ deepSource ≠ "" ∧ deepSource ≠ "-" ∧
      parse deepSource = .ok ⟨deepProgram, []⟩ ∧ Settings.unset.limitInForce = .ok defaultLimit ∧
      (∃ items, ((Session.new .default).runWithin callDepth .unset deepSource).1 = .ok (.array items)) ∧
      report.ending ≠ .code 0 ∧ report.ending ≠ .code 1 ∧ report.output = .none ∧
      ((Shell.new .unset).submit deepSource).failure = some .tooDeep := by
  intro report
  have hlimit : Settings.unset.limitInForce = .ok defaultLimit := rfl
  have hflag : withoutFlag [deepSource] = [deepSource] := by decide +kernel
  have hempty : deepSource ≠ "" := by decide +kernel
  have hdash : deepSource ≠ "-" := by decide +kernel
  have hran := runWithin_deepSource hlimit
  have hreport := not_fits_wrapped .commandLine
  have hanswer := not_fits_wrapped .shell
  generalize wrapped 600 [] = items at hran hreport hanswer
  have hsettings : settingsAfter .unset [deepSource] = .unset := if_neg (by decide +kernel)
  have hsource : report = runSource .unset deepSource := by
    rw [← hsettings]
    exact execute_of_source "" hflag hempty hdash rfl
  have hconclude : (report.ending, report.output) = (.failure .tooDeep, .none) := by
    have hrun := @runSource_eq _ .unset .unset rfl deepSource
    rw [← hsource] at hrun
    refine hrun.trans ?_
    rw [show ((Session.new .default).runWithin (Host.callDepth .commandLine) .unset deepSource).1 = _
      from hran]
    exact conclude_of_not_fits hreport .unset
  obtain ⟨hending, houtput⟩ := Prod.mk.inj hconclude
  obtain ⟨hfailure, -⟩ := submit_of_parse .unset parse_deepSource rfl
  have hanswered := hfailure.trans ((congrArg Shell.unhandled? hran).trans (unhandled?_of_not_fits hanswer))
  refine ⟨hflag, hempty, hdash, parse_deepSource, hlimit, ⟨items, hran⟩, ?_, ?_, houtput, hanswered⟩
  · rw [hending]
    exact fun h => nomatch h
  · rw [hending]
    exact fun h => nomatch h

end CommandLine

end Scriptlet
