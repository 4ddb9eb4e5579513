import Mathlib.Data.List.Induction
import Scriptlet.Proofs.Evaluation.History
import Scriptlet.Proofs.Parser.Completeness
import Scriptlet.Proofs.Shell.Splitting
import Scriptlet.Shell.Basic

/-!
# What a shell remembers

A shell answers line after line.  What it has in the end is told by its lines.

**Lines.**  What a line is depends on its first word: a word that starts with a slash is a command,
and any other line is a source.  Only the words `/reset` and `/ast` have an effect on the session and on
the display of trees, and only sources that are read without errors have one on the session.

**Trees.**  While trees are shown, a source is run only if the host has the frames to lay out its tree.  If it
has not, that fails before the run, where nothing catches it, and the source is lost.  On no host is there a
frame for every level of a tree that is deeper than the base limit (`respondAll_new_deep_tree`).

**Method.**  One lemma says all that a line does to a shell (`shell_respond`).  A run of any length follows
from it by induction on the last line.

**Result.**  `respondAll_new`: a shell has the session that comes of the readable sources since the last
reset, if every tree that was to be shown could be.  Its trees are shown if `/ast` was given an odd number
of times, and so many resets have replaced its session as there were lines that ask for it.
-/

namespace Scriptlet

section Lines

/-- The first word of a line, from its first character that is not blank to the next blank. -/
def firstWord (line : String) : List Char :=
  (line.toList.dropWhile Text.isBlank).takeWhile (!Text.isBlank ·)

/-- Whether a line is a command. -/
def isSlashLine (line : String) : Bool :=
  (firstWord line).head? = some '/'

/-- Whether the first word of a line is a given one. -/
def startsWithWord (word : String) (line : String) : Bool :=
  firstWord line = word.toList

/-- Whether a line asks for a reset. -/
def isResetLine : String → Bool :=
  startsWithWord "/reset"

/-- Whether a line asks for trees to be shown, or not to be shown any more. -/
def isTreeLine : String → Bool :=
  startsWithWord "/ast"

/-- Whether a line is a source that is read without errors. -/
def isReadableLine (line : String) : Bool :=
  !isSlashLine line &&
    match parse line with
    | .ok parsed => parsed.errors = []
    | .error _ => false

/-- Whether the tree of a line can be shown, if it has one. -/
def isShowableLine [Host] (line : String) : Bool :=
  match parse line with
  | .ok parsed => Host.fitsTree parsed.program.outline
  | .error _ => true

/-- No source since the last reset is lost for its tree: if it is read without errors, and comes after an
odd number of lines that ask for trees, its tree can be shown. -/
def TreesFit [Host] (lines : List String) : Prop :=
  ∀ before line after, lines = before ++ line :: after → (∀ later ∈ after, isResetLine later = false) →
    before.countP isTreeLine % 2 = 1 → isReadableLine line = true → isShowableLine line = true

theorem TreesFit.of_concat [Host] {lines : List String} {line : String} (h : TreesFit (lines ++ [line]))
    (hreset : isResetLine line = false) : TreesFit lines := by
  rintro before earlier after rfl hafter
  refine h before earlier (after ++ [line]) (by rw [List.append_assoc, List.cons_append]) ?_
  intro later hlater
  rcases List.mem_append.mp hlater with hmem | hmem
  · exact hafter later hmem
  · rw [List.mem_singleton.mp hmem, hreset]

/-- The lines after the last one that asks for a reset. -/
def sinceReset (lines : List String) : List String :=
  (lines.reverse.takeWhile (!isResetLine ·)).reverse

theorem sinceReset_concat (lines : List String) (line : String) :
    sinceReset (lines ++ [line]) =
      if isResetLine line = true then [] else sinceReset lines ++ [line] := by
  rw [sinceReset, List.reverse_concat, List.takeWhile_cons]
  by_cases h : isResetLine line = true
  · rw [if_pos h, h]
    rfl
  · rw [if_neg h, if_pos (by simpa using h), List.reverse_cons]
    rfl

end Lines

namespace Text

theorem takeWhile_of_all_not {p : Char → Bool} {cs : List Char} (h : ∀ c ∈ cs, p c = true) :
    cs.takeWhile (!p ·) = [] := by
  cases cs with
  | nil => rfl
  | cons c cs =>
      rw [List.takeWhile_cons, h c List.mem_cons_self]
      rfl

/-- What trimming takes away at the end is not part of the first word. -/
theorem takeWhile_trim (p : Char → Bool) (cs : List Char) :
    (trim p cs).takeWhile (!p ·) = (cs.dropWhile p).takeWhile (!p ·) := by
  have hsplit := List.takeWhile_append_dropWhile (p := p) (l := (cs.dropWhile p).reverse)
  have hwhole : cs.dropWhile p =
      trim p cs ++ ((cs.dropWhile p).reverse.takeWhile p).reverse := by
    rw [trim, ← List.reverse_append, hsplit, List.reverse_reverse]
  have hblank : (((cs.dropWhile p).reverse.takeWhile p).reverse).takeWhile (!p ·) = [] := by
    apply takeWhile_of_all_not
    intro c hc
    exact List.all_eq_true.mp List.all_takeWhile c (List.mem_reverse.mp hc)
  conv_rhs => rw [hwhole, List.takeWhile_append, hblank, List.append_nil]
  split
  · next hlength => exact (List.takeWhile_prefix _).eq_of_length hlength
  · rfl

/-- A text starts with its first word. -/
theorem head?_takeWhile_not {p : Char → Bool} {c : Char} (hc : p c = false) (cs : List Char) :
    (cs.takeWhile (!p ·)).head? = some c ↔ cs.head? = some c := by
  cases cs with
  | nil => rfl
  | cons d cs =>
      rw [List.takeWhile_cons, List.head?_cons]
      by_cases hd : p d = true
      · rw [hd]
        refine iff_of_false nofun fun h => ?_
        rw [Option.some.inj h, hc] at hd
        cases hd
      · rw [if_pos (by simpa using hd), List.head?_cons]

end Text

namespace Command

theorem ofLine?_of_slash {line : String} (h : isSlashLine line = true) :
    ∃ argument, ofLine? line = some (ofWord (String.ofList (firstWord line)) argument) := by
  have hfirst : firstWord line = (Text.trim Text.isBlank line.toList).takeWhile (!Text.isBlank ·) :=
    (Text.takeWhile_trim _ _).symm
  rw [isSlashLine, decide_eq_true_iff, hfirst, Text.head?_takeWhile_not (by decide)] at h
  rw [ofLine?, if_pos h, hfirst]
  exact ⟨_, rfl⟩

theorem ofLine?_of_not_slash {line : String} (h : isSlashLine line = false) :
    ofLine? line = none := by
  have hfirst : firstWord line = (Text.trim Text.isBlank line.toList).takeWhile (!Text.isBlank ·) :=
    (Text.takeWhile_trim _ _).symm
  rw [isSlashLine, decide_eq_false_iff_not, hfirst, Text.head?_takeWhile_not (by decide)] at h
  rw [ofLine?, if_neg h]

theorem ofWord_eq_reset_iff {word argument : String} :
    ofWord word argument = reset ↔ word = "/reset" := by
  unfold ofWord
  split <;> simp_all

theorem ofWord_eq_tree_iff {word argument : String} :
    ofWord word argument = tree ↔ word = "/ast" := by
  unfold ofWord
  split <;> simp_all

end Command

theorem startsWithWord_iff {word line : String} :
    startsWithWord word line = true ↔ String.ofList (firstWord line) = word := by
  rw [startsWithWord, decide_eq_true_iff]
  constructor
  · intro h
    rw [h, String.ofList_toList]
  · intro h
    rw [← h, String.toList_ofList]

/-- A line that starts with a word that starts with a slash is a command. -/
theorem startsWithWord_of_not_slash {word line : String} (hword : word.toList.head? = some '/')
    (h : isSlashLine line = false) : startsWithWord word line = false := by
  rw [startsWithWord, decide_eq_false_iff_not]
  intro hfirst
  rw [isSlashLine, hfirst, hword] at h
  cases h

/-- A source is run under the limit in force, and nothing else of the settings matters. -/
theorem runWithin_congr {settings settings' : Settings}
    (h : settings.limitInForce = settings'.limitInForce) (depth : Int → Nat) (scope : ScopeId)
    (source : String) (heap : Heap) :
    runWithin depth settings scope source heap = runWithin depth settings' scope source heap := by
  simp only [runWithin, runProgramWithin, evaluateWithin, h]

namespace Session

theorem runWithin_congr {settings settings' : Settings}
    (h : settings.limitInForce = settings'.limitInForce) (depth : Int → Nat) (s : Session)
    (source : String) : s.runWithin depth settings source = s.runWithin depth settings' source := by
  rw [Session.runWithin, Session.runWithin, Scriptlet.runWithin_congr h]

/-- The session after sources that are run in their order, each where a limit allows so many calls to nest. -/
def afterAll (depth : Int → Nat) (settings : Settings) (s : Session) (sources : List String) : Session :=
  sources.foldl (fun s source => (s.runWithin depth settings source).2) s

theorem afterAll_append (depth : Int → Nat) (settings : Settings) (s : Session)
    (sources more : List String) :
    s.afterAll depth settings (sources ++ more) =
      (s.afterAll depth settings sources).afterAll depth settings more :=
  List.foldl_append

end Session

namespace Shell

section Steps

/-- What a command does to a shell; host traces have no part in the limit. -/
theorem shell_perform (s : Shell) (command : Command) :
    let after := (s.perform command).1
    after.session = (if command = .reset then .new .default else s.session) ∧
      after.showTree = (if command = .tree then !s.showTree else s.showTree) ∧
      after.resets = s.resets + (if command = .reset then 1 else 0) ∧
      after.settings.limitInForce = s.settings.limitInForce := by
  cases command with
  | trace request => cases request <;> exact ⟨rfl, rfl, rfl, rfl⟩
  | _ => exact ⟨rfl, rfl, rfl, rfl⟩

variable [Host] (s : Shell)

/-- What a source does to a shell. -/
theorem shell_submit {line : String} (hslash : isSlashLine line = false) :
    (s.submit line).shell =
      if isReadableLine line && (!s.showTree || isShowableLine line) then
        { s with session := (s.session.runWithin (Host.callDepth .shell) s.settings line).2 }
      else s := by
  rw [isReadableLine, hslash, Bool.not_false, Bool.true_and, isShowableLine]
  unfold submit Session.runWithin Scriptlet.runWithin
  cases parse line with
  | error fault => rfl
  | ok parsed =>
      by_cases herrors : parsed.errors = []
      · simp only [if_pos herrors, decide_eq_true herrors, Bool.true_and]
        unfold runProgram treeOutput
        by_cases hshow : s.showTree = true
        · by_cases hfits : Host.fitsTree parsed.program.outline = true
          · simp only [hshow, hfits, if_true, Bool.or_true]
            rfl
          · simp only [hshow, hfits, if_true, Bool.not_true, Bool.or_false, Bool.false_eq_true, if_false]
        · simp only [hshow, Bool.not_false, Bool.true_or, if_true, if_false, Bool.false_eq_true]
          rfl
      · simp only [if_neg herrors, decide_eq_false herrors, Bool.false_and, Bool.false_eq_true, if_false]

theorem shell_respond_command {line : String} {command : Command}
    (h : Command.ofLine? line = some command) : (s.respond line).shell = (s.perform command).1 := by
  rw [respond, h]

/-- What a line does to a shell. -/
theorem shell_respond (line : String) :
    let after := (s.respond line).shell
    after.session = (if isResetLine line = true then .new .default
        else if isReadableLine line && (!s.showTree || isShowableLine line) then
          (s.session.runWithin (Host.callDepth .shell) s.settings line).2
        else s.session) ∧
      after.showTree = (if isTreeLine line = true then !s.showTree else s.showTree) ∧
      after.resets = s.resets + (if isResetLine line = true then 1 else 0) ∧
      after.settings.limitInForce = s.settings.limitInForce := by
  by_cases hslash : isSlashLine line = true
  · obtain ⟨argument, hline⟩ := Command.ofLine?_of_slash hslash
    have hperform := s.shell_perform (.ofWord (String.ofList (firstWord line)) argument)
    have hreadable : isReadableLine line = false := by
      rw [isReadableLine, hslash]
      rfl
    simp only [Command.ofWord_eq_reset_iff, Command.ofWord_eq_tree_iff, ← startsWithWord_iff]
      at hperform
    rw [s.shell_respond_command hline, hreadable, Bool.false_and, if_neg Bool.false_ne_true]
    exact hperform
  · rw [Bool.not_eq_true] at hslash
    have hreset : isResetLine line = false := startsWithWord_of_not_slash (by decide) hslash
    have htree : isTreeLine line = false := startsWithWord_of_not_slash (by decide) hslash
    rw [respond, Command.ofLine?_of_not_slash hslash, s.shell_submit hslash, hreset, htree]
    split
    · exact ⟨rfl, rfl, rfl, rfl⟩
    · exact ⟨rfl, rfl, rfl, rfl⟩

end Steps

section Runs

variable [Host]

/-- The shell after it has answered lines one after the other.  It goes on after a line that failed. -/
def respondAll (s : Shell) (lines : List String) : Shell :=
  lines.foldl (fun s line => (s.respond line).shell) s

theorem respondAll_concat (s : Shell) (lines : List String) (line : String) :
    s.respondAll (lines ++ [line]) = ((s.respondAll lines).respond line).shell := by
  rw [respondAll, List.foldl_append]
  rfl

theorem limitInForce_respondAll (s : Shell) (lines : List String) :
    (s.respondAll lines).settings.limitInForce = s.settings.limitInForce := by
  induction lines using List.reverseRecOn with
  | nil => rfl
  | append_singleton lines line ih =>
      obtain ⟨-, -, -, hlimit⟩ := (s.respondAll lines).shell_respond line
      rw [respondAll_concat, hlimit, ih]

theorem resets_respondAll (s : Shell) (lines : List String) :
    (s.respondAll lines).resets = s.resets + lines.countP isResetLine := by
  induction lines using List.reverseRecOn with
  | nil => rfl
  | append_singleton lines line ih =>
      obtain ⟨-, -, hresets, -⟩ := (s.respondAll lines).shell_respond line
      rw [respondAll_concat, hresets, ih, List.countP_append, List.countP_singleton, Nat.add_assoc]

theorem showTree_respondAll (s : Shell) (lines : List String) :
    (s.respondAll lines).showTree = (s.showTree ^^ decide (lines.countP isTreeLine % 2 = 1)) := by
  induction lines using List.reverseRecOn with
  | nil => simp [respondAll]
  | append_singleton lines line ih =>
      obtain ⟨-, hshow, -, -⟩ := (s.respondAll lines).shell_respond line
      have hparity : decide ((lines.countP isTreeLine + 1) % 2 = 1) =
          !decide (lines.countP isTreeLine % 2 = 1) := by
        rw [← decide_not]
        exact decide_eq_decide.mpr (by omega)
      rw [respondAll_concat, hshow, ih, List.countP_append, List.countP_singleton]
      by_cases htree : isTreeLine line = true
      · rw [if_pos htree, if_pos htree, hparity, Bool.xor_not]
      · rw [if_neg htree, if_neg htree, Nat.add_zero]

theorem showTree_respondAll_new (settings : Settings) (lines : List String) :
    ((new settings).respondAll lines).showTree = decide (lines.countP isTreeLine % 2 = 1) := by
  rw [showTree_respondAll]
  exact Bool.false_xor _

/-- The session after lines comes of the readable sources since the last reset, if none is lost. -/
theorem session_respondAll (settings : Settings) {lines : List String} (hfit : TreesFit lines) :
    ((new settings).respondAll lines).session =
      (Session.new .default).afterAll (Host.callDepth .shell) settings
        ((sinceReset lines).filter isReadableLine) := by
  induction lines using List.reverseRecOn with
  | nil => rfl
  | append_singleton lines line ih =>
      obtain ⟨hsession, -⟩ := ((new settings).respondAll lines).shell_respond line
      rw [respondAll_concat, hsession, sinceReset_concat]
      by_cases hreset : isResetLine line = true
      · rw [if_pos hreset, if_pos hreset]
        rfl
      · rw [if_neg hreset, if_neg hreset, List.filter_append, Session.afterAll_append,
          ← ih (hfit.of_concat (eq_false_of_ne_true hreset))]
        by_cases hreadable : isReadableLine line = true
        · have hshown : (!((new settings).respondAll lines).showTree || isShowableLine line) = true := by
            rw [showTree_respondAll_new]
            by_cases hodd : lines.countP isTreeLine % 2 = 1
            · rw [hfit lines line [] rfl (by simp) hodd hreadable, Bool.or_true]
            · rw [decide_eq_false hodd, Bool.not_false, Bool.true_or]
          rw [hreadable, hshown, Bool.and_self, if_pos rfl, List.filter_cons_of_pos hreadable]
          exact congrArg Prod.snd (Session.runWithin_congr (limitInForce_respondAll _ lines) _ _ line)
        · rw [eq_false_of_ne_true hreadable, Bool.false_and, if_neg Bool.false_ne_true,
            List.filter_cons_of_neg hreadable]
          rfl

/-- Lines that a new shell answers, one after the other and whatever fails on the way, leave it with the
session that a new one becomes by running, in their order, the sources among them that are read without
errors and come after the last reset, if none of these is lost for its tree.  So many resets have
replaced the session as lines ask for one, and trees are shown if an odd number of lines ask for that.
One more line then replaces the session only if it asks for a reset, and it changes the bindings only if
it does or is a readable source. -/
theorem respondAll_new (settings : Settings) (lines : List String) :
    let s := (new settings).respondAll lines
    (TreesFit lines → s.session = (Session.new .default).afterAll (Host.callDepth .shell) settings
        ((sinceReset lines).filter isReadableLine)) ∧
      s.showTree = decide (lines.countP isTreeLine % 2 = 1) ∧
      s.resets = lines.countP isResetLine ∧
      ∀ line, let after := (s.respond line).shell
        (isResetLine line = true → after.session = .new .default ∧ after.resets = s.resets + 1) ∧
          (isResetLine line = false →
            after.session.scope = s.session.scope ∧ after.resets = s.resets ∧
              (isReadableLine line = false → after.session = s.session)) := by
  intro s
  refine ⟨session_respondAll settings, showTree_respondAll_new settings lines, ?_, fun line => ?_⟩
  · rw [resets_respondAll]
    exact Nat.zero_add _
  · obtain ⟨hsession, -, hresets, -⟩ := s.shell_respond line
    intro after
    constructor
    · intro hreset
      rw [if_pos hreset] at hsession hresets
      exact ⟨hsession, hresets⟩
    · intro hreset
      rw [hreset, if_neg Bool.false_ne_true] at hsession hresets
      refine ⟨?_, hresets, fun hreadable => ?_⟩
      · rw [hsession]
        split <;> rfl
      · rw [hsession, hreadable]
        rfl

end Runs

/-- Commands, with blanks around them and words after them, stand between sources, all of whose trees can
be shown; one source fails after its first binding, and one is not read without errors. -/
theorem respondAll_new_interleaved :
    let lines := ["let a = 1", "/ast", " /reset  now", "let b = 2; -true; let c = 3", "\t/ast\t",
      "let = 4", "/py-traceback on", "/resets", "/ast off", "let d = b"]
    let s := (new .unset).respondAll lines
    TreesFit lines ∧
      s.session = (Session.new .default).afterAll callDepth .unset
        ["let b = 2; -true; let c = 3", "let d = b"] ∧
      s.showTree = true ∧ s.resets = 1 := by
  intro lines s
  have hshowable : ∀ line ∈ lines, isShowableLine line = true := by decide +kernel
  have hfit : TreesFit lines := by
    intro before line after hlines _ _ _
    apply hshowable
    rw [hlines]
    exact List.mem_append_right before List.mem_cons_self
  obtain ⟨hsession, htree, hresets, -⟩ := respondAll_new .unset lines
  refine ⟨hfit, (hsession hfit).trans (congrArg (Session.afterAll callDepth .unset _) ?_),
    htree.trans (by decide +kernel), hresets.trans (by decide +kernel)⟩
  decide +kernel

section DeepTrees

open Scriptlet.Parser

/-- A number that is called so many times, one call after the other. -/
def calledNumber : Nat → Expr
  | 0 => .integer 1
  | k + 1 => .call (calledNumber k) []

/-- So many calls without arguments. -/
def calls (k : Nat) : List Char :=
  (List.replicate k ['(', ')']).flatten

/-- Their words. -/
def callWords (k : Nat) : List Word :=
  (List.replicate k [⟨.lparen, "("⟩, ⟨.rparen, ")"⟩]).flatten

theorem wordsOf_calls (k : Nat) : wordsOf (calls k) = callWords k := by
  induction k with
  | zero => exact wordsOf_nil
  | succ k ih =>
      rw [callWords, List.replicate_succ, List.flatten_cons, ← callWords, ← ih]
      have hopening : symbol? '(' = some .lparen := rfl
      have hclosing : symbol? ')' = some .rparen := rfl
      exact (wordsOf_symbol hopening _).trans (congrArg _ (wordsOf_symbol hclosing _))

/-- The calls nest to the left, so they are read however many they are. -/
theorem understood_calledNumber (n k : Nat) :
    Understood (n + 1) (.expression (calledNumber k)) (⟨.int, "1"⟩ :: callWords k) := by
  induction k with
  | zero => exact understood_of_operand rfl fun _ _ => (reads_integer (by decide) (by decide)).takes
  | succ k ih =>
      rw [callWords, List.replicate_succ', List.flatten_append, ← callWords, ← List.cons_append]
      exact understood_call ih understood_noExpressions

theorem depth_calledNumber (k : Nat) : (calledNumber k).outline.depth = k + 1 := by
  induction k with
  | zero => rfl
  | succ k ih =>
      simp only [calledNumber, Expr.outline, Expr.outlines, Outline.depth, Outline.depthAll, ih]
      omega

/-- A binding, and then the calls. -/
def deepLine (k : Nat) : String :=
  "let a = 1; " ++ String.ofList ('1' :: calls k)

theorem parse_calls (k : Nat) :
    parse (String.ofList ('1' :: calls k)) = .ok ⟨⟨[.expr (calledNumber k)]⟩, []⟩ := by
  have hafter : ∀ c ∈ (calls k).head?, isDigit c = false := by
    cases k with
    | zero => exact fun c hc => nomatch hc
    | succ k =>
        rintro c ⟨⟩
        rfl
  have hwords : (Scanner.ofString (String.ofList ('1' :: calls k))).words =
      ⟨.int, "1"⟩ :: callWords k := by
    rw [Scanner.words_eq, ← wordsOf_calls, ← wordsOf_digits (List.cons_ne_nil '1' []) rfl hafter]
    exact congrArg wordsOf String.toList_ofList
  apply parse_of_reads
  rw [hwords]
  exact (understood_lastStatement (understood_calledNumber 998 k).whole).reads

theorem parse_deepLine (k : Nat) :
    parse (deepLine k) = .ok ⟨⟨[.bind "a" (.integer 1), .expr (calledNumber k)]⟩, []⟩ := by
  have hbind : parse "let a = 1; " = .ok ⟨⟨[.bind "a" (.integer 1)]⟩, []⟩ :=
    eq_ok_of_toOption (by decide +kernel)
  rw [deepLine, parse_append hbind (by decide +kernel) (by decide +kernel), parse_calls]
  rfl

theorem isSlashLine_deepLine (k : Nat) : isSlashLine (deepLine k) = false := by
  rw [isSlashLine, firstWord, deepLine, String.toList_append]
  rfl

theorem isReadableLine_deepLine (k : Nat) : isReadableLine (deepLine k) = true := by
  rw [isReadableLine, isSlashLine_deepLine, parse_deepLine]
  rfl

theorem isShowableLine_deepLine [Host] {k : Nat} (hk : baseLimit ≤ k) :
    isShowableLine (deepLine k) = false := by
  rw [isShowableLine, parse_deepLine, ← Bool.not_eq_true]
  intro hfits
  have hlt := Host.depth_lt_of_fitsTree hfits
  simp only [Program.outline, Stmt.outlines, Stmt.outline, Outline.depth, Outline.depthAll,
    depth_calledNumber] at hlt
  omega

/-- A number is no function, and every further call hands on the error of the first. -/
theorem start_calledNumber (depth : Nat) (scope : ScopeId) (k : Nat) (h : Heap) :
    ((calledNumber (k + 1)).eval (callWithin depth) scope).start h =
      (.ok (RuntimeError.notFunction .integer).value, h) := by
  induction k with
  | zero => cases depth <;> rfl
  | succ k ih =>
      rw [calledNumber, Expr.eval, Eval.unlessError, Eval.start_bind, ih]
      rfl

/-- The run of such a line binds the name, and fails after that. -/
theorem listing_run_deepLine (k : Nat) :
    ((Session.new .default).runWithin callDepth .unset (deepLine (k + 1))).2.listing = [("a", "1")] := by
  have hcompletes : (⟨[.bind "a" (.integer 1)]⟩ : Program).completes .unset
      (Session.new .default).scope (Session.new .default).heap = true := by decide +kernel
  obtain ⟨v, after, -, hfirst, hrest⟩ := runProgram_append hcompletes
  have hcalls : (Scriptlet.runProgram .unset (Session.new .default).scope
      ⟨[.expr (calledNumber (k + 1))]⟩ after).2 = after := by
    have hlimit : Settings.unset.limitInForce = .ok defaultLimit := by decide +kernel
    simp only [Scriptlet.runProgram, evaluate, evaluateWithin, hlimit, Node.eval, Program.eval, Stmt.evalAll,
      Stmt.eval, Eval.start_bind, start_calledNumber]
    rfl
  have hwhole := hrest [.expr (calledNumber (k + 1))] (List.cons_ne_nil _ _)
  have hrun : ((Session.new .default).runWithin callDepth .unset (deepLine (k + 1))).2 =
      ⟨after, (Session.new .default).scope⟩ := by
    rw [Session.runWithin, Scriptlet.runWithin, parse_deepLine, ← hcalls, ← hwhole]
    rfl
  have hbound : after = (Scriptlet.runProgram .unset (Session.new .default).scope
      ⟨[.bind "a" (.integer 1)]⟩ (Session.new .default).heap).2 := by rw [hfirst]
  rw [hrun, hbound]
  decide +kernel

/-- A source whose tree is too deep is lost while trees are shown, with what it would bind. -/
theorem listing_deepLine {k : Nat} (hk : baseLimit ≤ k + 1) :
    ((new .unset).respondAll ["/ast", deepLine (k + 1)]).session.listing = [] ∧
      ((Session.new .default).afterAll callDepth .unset
        ((sinceReset ["/ast", deepLine (k + 1)]).filter isReadableLine)).listing = [("a", "1")] := by
  have hreset : isResetLine (deepLine (k + 1)) = false :=
    startsWithWord_of_not_slash (by decide) (isSlashLine_deepLine (k + 1))
  have hreadable := isReadableLine_deepLine (k + 1)
  have hlines : ["/ast", deepLine (k + 1)] = ["/ast"] ++ [deepLine (k + 1)] := rfl
  rw [hlines]
  constructor
  · obtain ⟨hsession, -⟩ := ((new .unset).respondAll ["/ast"]).shell_respond (deepLine (k + 1))
    have hshown : ((new .unset).respondAll ["/ast"]).showTree = true := by decide +kernel
    rw [respondAll_concat, hsession, hreset, if_neg Bool.false_ne_true, hreadable, hshown,
      isShowableLine_deepLine hk, if_neg (by decide)]
    decide +kernel
  · have hcommand : (sinceReset ["/ast"]).filter isReadableLine = [] := by decide +kernel
    rw [sinceReset_concat, hreset, if_neg Bool.false_ne_true, List.filter_append, hcommand,
      List.filter_cons_of_pos hreadable]
    exact listing_run_deepLine k

/-- Trees are shown, and the tree of a source is too deep: the source is not run, and what it binds first
is not bound.  Without the tree it would be. -/
theorem respondAll_new_deep_tree :
    let lines := ["/ast", deepLine 1200]
    ((new .unset).respondAll lines).session.listing = [] ∧
      ((Session.new .default).afterAll callDepth .unset
        ((sinceReset lines).filter isReadableLine)).listing = [("a", "1")] :=
  listing_deepLine (k := 1199) (by decide)

end DeepTrees

end Shell

end Scriptlet
