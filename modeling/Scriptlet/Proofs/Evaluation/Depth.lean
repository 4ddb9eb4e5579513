import Scriptlet.Proofs.Evaluation.Comparison
import Scriptlet.Proofs.Shell.Splitting

/-!
# How deep calls nest

The limit on depth decides whether an evaluation finishes, and nothing else.

**Comparison.**  `Abridges x y`: from every heap, `x` has the history and the outcome of `y`, or it stops
because calls are nested too deeply and its history is a beginning of that of `y`.  Sequencing keeps the
comparison, so it holds of every phrase if it holds of calls.

**Where a program is cut off.**  A program that stops for good does so in one of its statements; those
before it have completed (`exists_of_evalAll_error`).

**Results.**
* `recordWithin_abridges`: calls that may nest less deeply abridge those that may nest more deeply.
* `evaluate_with_greater_limit`: what finishes under a limit finishes alike under a greater one, and what
  is cut off has done what it does under the greater one up to there.
* `unenforceable_limit_fails`: a limit can be too great to be put in force at all.
-/

namespace Scriptlet

section Comparison

variable {α β : Type}

/-- The evaluation is the other one, or a beginning of it that is cut off by the limit on depth. -/
def Abridges (x y : Recorded α) : Prop :=
  ∀ h, x h = y h ∨ (x h).2 = .error .callsTooDeep ∧ (x h).1 <+: (y h).1

theorem Abridges.refl (x : Recorded α) : Abridges x x :=
  fun _ => .inl rfl

/-- What comes first in a sequence is the beginning of its history. -/
theorem history_prefix_bind (x : Recorded α) (f : α → Recorded β) (h : Heap) :
    (x h).1 <+: ((x >>= f) h).1 := by
  rw [Recorded.run_bind]
  generalize x h = result
  obtain ⟨events, outcome⟩ := result
  cases outcome with
  | error e => exact List.prefix_refl _
  | ok a => exact List.prefix_append _ _

theorem Abridges.bind {x y : Recorded α} {f g : α → Recorded β} (hxy : Abridges x y)
    (hfg : ∀ a, Abridges (f a) (g a)) : Abridges (x >>= f) (y >>= g) := by
  intro h
  rcases hxy h with hsame | ⟨hdeep, hbeginning⟩
  · rw [Recorded.run_bind, Recorded.run_bind, hsame]
    generalize y h = result
    obtain ⟨events, outcome⟩ := result
    cases outcome with
    | error e => exact .inl rfl
    | ok a =>
        rcases hfg a (replay events h) with hsame | ⟨hdeep, hbeginning⟩
        · left
          simp only [hsame]
        · exact .inr ⟨hdeep, (List.prefix_append_right_inj events).mpr hbeginning⟩
  · right
    have hlonger := hbeginning.trans (history_prefix_bind y g h)
    rw [Recorded.run_bind x f]
    generalize x h = result at hdeep hlonger
    obtain ⟨events, outcome⟩ := result
    cases hdeep
    exact ⟨rfl, hlonger⟩

theorem abridges_compositional : Compositional @Abridges where
  pure _ := .refl _
  bind := .bind
  happen _ := .refl _
  newSerial := .refl _
  enter _ _ := .refl _
  ident _ _ := .refl _

end Comparison

/-- Calls that may nest less deeply abridge those that may nest more deeply, by induction on the smaller
depth: the bodies of calls have one level less. -/
theorem recordWithin_abridges {depth more : Nat} (hle : depth ≤ more) (f : Value)
    (arguments : List Value) :
    Abridges (recordWithin depth f arguments) (recordWithin more f arguments) := by
  induction depth generalizing more f arguments with
  | zero =>
      cases f with
      | function f => exact fun _ => .inr ⟨rfl, List.nil_prefix⟩
      | _ =>
          cases more with
          | zero => exact .refl _
          | succ more => exact .refl _
  | succ depth ih =>
      obtain ⟨more, rfl⟩ := Nat.exists_eq_add_one_of_ne_zero (Nat.ne_zero_of_lt hle)
      cases f with
      | function f => exact abridges_compositional.function (ih (Nat.le_of_succ_le_succ hle)) f arguments
      | _ => exact .refl _

section Limits

variable {s s' : Settings} {n m : Int}

/-- A limit that is not too great is put in force, but never one below the base limit. -/
theorem limitInForce_of_limit (hs : s.limit = .ok n) (hn : n ≤ greatestLimit) :
    s.limitInForce = .ok (max baseLimit n) := by
  rw [Settings.limitInForce, hs]
  show effectiveLimit n = _
  rw [effectiveLimit, if_neg (Int.not_lt.mpr hn)]

/-- A limit that is too great makes every evaluation fail before it starts. -/
theorem recordEvaluate_of_limit_too_great (hs : s.limit = .ok n) (hn : greatestLimit < n)
    (scope : ScopeId) (node : Node) (h : Heap) :
    recordEvaluate s scope node h = ([], .error (.badLimit .tooLarge)) := by
  have hforce : s.limitInForce = .error .tooLarge := by
    rw [Settings.limitInForce, hs]
    show effectiveLimit n = _
    rw [effectiveLimit, if_pos hn]
  rw [recordEvaluate, hforce]

theorem callDepth_mono (hle : n ≤ m) : callDepth n ≤ callDepth m :=
  Nat.div_le_div_right (Int.toNat_le_toNat hle)

/-- Of two limits that can be put in force, each allows some depth, the greater one no less. -/
theorem exists_depths (hs : s.limit = .ok n) (hs' : s'.limit = .ok m) (hle : n ≤ m)
    (hm : m ≤ greatestLimit) :
    ∃ limit limit' : Int, s.limitInForce = .ok limit ∧ s'.limitInForce = .ok limit' ∧
      callDepth limit ≤ callDepth limit' := by
  refine ⟨_, _, limitInForce_of_limit hs (Int.le_trans hle hm), limitInForce_of_limit hs' hm, ?_⟩
  have hmax : max baseLimit n ≤ max baseLimit m := by omega
  exact callDepth_mono hmax

theorem recordEvaluate_abridges (hs : s.limit = .ok n) (hs' : s'.limit = .ok m) (hle : n ≤ m)
    (hm : m ≤ greatestLimit ∨ greatestLimit < n) (scope : ScopeId) (node : Node) (h : Heap) :
    recordEvaluate s scope node h = recordEvaluate s' scope node h ∨
      (recordEvaluate s scope node h).2 = .error .tooDeep ∧
        (recordEvaluate s scope node h).1 <+: (recordEvaluate s' scope node h).1 := by
  rcases hm with hm | hn
  · obtain ⟨limit, limit', hlimit, hlimit', hdepth⟩ := exists_depths hs hs' hle hm
    have hnode := node.related abridges_compositional (recordWithin_abridges hdepth) scope h
    simp only [recordEvaluate, hlimit, hlimit']
    rcases hnode with hsame | ⟨hdeep, hbeginning⟩
    · left
      rw [hsame]
    · right
      generalize node.record (recordWithin (callDepth limit)) scope h = cut at hdeep hbeginning
      generalize node.record (recordWithin (callDepth limit')) scope h = whole at hbeginning
      obtain ⟨events, outcome⟩ := cut
      obtain ⟨events', outcome'⟩ := whole
      cases hdeep
      cases outcome' with
      | error cause =>
          cases cause
          exact ⟨rfl, hbeginning⟩
      | ok v => exact ⟨rfl, hbeginning⟩
  · left
    rw [recordEvaluate_of_limit_too_great hs hn,
      recordEvaluate_of_limit_too_great hs' (Int.lt_of_lt_of_le hn hle)]

end Limits

section Statements

variable {scope : ScopeId}

/-- Statements that stop for good do so in one of them, after those before it have completed. -/
theorem exists_of_evalAll_error {call : Caller} {body : List Stmt} {cause : Halt} {after : Heap} :
    ∀ {heap : Heap} {last : Value},
      (Stmt.evalAll call scope last body).start heap = (.error cause, after) →
      ∃ first stmt rest, body = first ++ stmt :: rest ∧
        Stmt.completesAll call scope first heap = true ∧
        ∀ v reached, (Stmt.evalAll call scope last first).start heap = (.ok v, reached) →
          (stmt.eval call scope).start reached = (.error cause, after) := by
  induction body with
  | nil =>
      intro heap last h
      cases h
  | cons stmt rest ih =>
      intro heap last h
      rw [Stmt.evalAll, Eval.start_bind] at h
      cases hstmt : (stmt.eval call scope).start heap with
      | mk outcome middle =>
          rw [hstmt] at h
          cases outcome with
          | error e =>
              cases h
              refine ⟨[], stmt, rest, rfl, rfl, ?_⟩
              intro v reached hreached
              cases hreached
              exact hstmt
          | ok w =>
              simp only at h
              by_cases hstops : w.stops = true
              · rw [if_pos hstops] at h
                cases h
              · rw [if_neg hstops] at h
                obtain ⟨first, next, others, rfl, hfirst, hnext⟩ := ih h
                refine ⟨stmt :: first, next, others, rfl, ?_, ?_⟩
                · simp only [Stmt.completesAll, hstmt, hstops, hfirst, Bool.not_false,
                    Bool.and_self]
                · intro v reached hreached
                  rw [Stmt.evalAll, Eval.start_bind, hstmt] at hreached
                  simp only [if_neg hstops] at hreached
                  exact hnext v reached hreached

/-- What ends in a value with less room for calls does the same with more. -/
theorem Abridges.start_eq {α : Type} {x y : Eval α} {x' y' : Recorded α} (h : Abridges x' y')
    (hx : Follows x x') (hy : Follows y y') {heap after : Heap} {a : α}
    (hrun : x.start heap = (.ok a, after)) : y.start heap = (.ok a, after) := by
  rw [hx heap] at hrun
  rw [hy heap]
  rcases h heap with hsame | ⟨hdeep, -⟩
  · rw [← hsame]
    exact hrun
  · rw [hdeep] at hrun
    cases hrun

/-- What an evaluation comes to with less room for calls, it comes to with more. -/
theorem evaluateWithin_of_le {settings : Settings} {limit : Int} {depth more : Int → Nat} {node : Node}
    {heap : Heap} (hlimit : settings.limitInForce = .ok limit) (hle : depth limit ≤ more limit)
    (hfinishes : (evaluateWithin depth settings scope node heap).1 ≠ .error .tooDeep) :
    evaluateWithin more settings scope node heap = evaluateWithin depth settings scope node heap := by
  have habridges := node.related abridges_compositional (recordWithin_abridges hle) scope
  have hless := node.follows (recordWithin_follows (depth limit)) scope
  have hmore := node.follows (recordWithin_follows (more limit)) scope
  simp only [evaluateWithin, hlimit] at hfinishes ⊢
  cases hrun : (node.eval (callWithin (depth limit)) scope).start heap with
  | mk outcome after =>
      rw [hrun] at hfinishes
      cases outcome with
      | error cause =>
          cases cause
          exact absurd rfl hfinishes
      | ok v => rw [habridges.start_eq hless hmore hrun]

theorem completesAll_of_deeper {depth more : Nat} (hle : depth ≤ more) {body : List Stmt} :
    ∀ {heap : Heap}, Stmt.completesAll (callWithin depth) scope body heap = true →
      Stmt.completesAll (callWithin more) scope body heap = true := by
  induction body with
  | nil => exact fun h => h
  | cons stmt rest ih =>
      intro heap h
      rw [Stmt.completesAll] at h
      split at h
      · cases h
      · next v middle hstmt =>
          rw [Bool.and_eq_true] at h
          have hmore := (stmt.related abridges_compositional (recordWithin_abridges hle) scope).start_eq
            (stmt.follows (recordWithin_follows depth) scope)
            (stmt.follows (recordWithin_follows more) scope) hstmt
          simp only [Stmt.completesAll, hmore, Bool.and_eq_true]
          exact ⟨h.1, ih h.2⟩

variable {s s' : Settings} {limit limit' : Int} {p : Program} {h after : Heap}

/-- A program that is cut off has completed the statements before the one it is cut off in. -/
theorem exists_of_runProgram_tooDeep (hs : s.limitInForce = .ok limit)
    (hcut : runProgram s scope p h = (.error .tooDeep, after)) :
    ∃ first stmt rest v reached, p.statements = first ++ stmt :: rest ∧
      Stmt.completesAll (callWithin (callDepth limit)) scope first h = true ∧
      runProgram s scope ⟨first⟩ h = (.ok v, reached) ∧
      evaluate s scope (.statement stmt) reached = (.error .tooDeep, after) := by
  have hbody : (Stmt.evalAll (callWithin (callDepth limit)) scope .null p.statements).start h =
      (.error .callsTooDeep, after) := by
    simp only [runProgram, evaluate, evaluateWithin, hs, Node.eval, Program.eval, Eval.start_bind] at hcut
    generalize (Stmt.evalAll (callWithin (callDepth limit)) scope .null p.statements).start h =
      result at hcut ⊢
    obtain ⟨outcome, heap⟩ := result
    cases outcome with
    | error cause =>
        cases cause
        cases hcut
        rfl
    | ok v => cases hcut
  obtain ⟨first, stmt, rest, hsplit, hfirst, hstmt⟩ := exists_of_evalAll_error hbody
  obtain ⟨v, reached, hv, heval, -⟩ := start_evalAll_append hfirst .null rfl
  refine ⟨first, stmt, rest, v, reached, hsplit, hfirst, ?_, ?_⟩
  · simp only [runProgram, evaluate, evaluateWithin, hs, Node.eval, Program.eval, Eval.start_bind, heval,
      Eval.start_pure, Value.unwrapped_of_not_stops hv]
  · simp only [evaluate, evaluateWithin, hs, Node.eval, hstmt v reached heval]

/-- A program goes on from the heap that its first statements have left when they complete. -/
theorem runProgram_split {first rest : List Stmt} {stmt : Stmt} {v : Value} {reached : Heap}
    (hsplit : p.statements = first ++ stmt :: rest)
    (hfirst : Program.completes s scope ⟨first⟩ h = true)
    (hrun : runProgram s scope ⟨first⟩ h = (.ok v, reached)) :
    runProgram s scope p h = runProgram s scope ⟨stmt :: rest⟩ reached := by
  obtain ⟨w, heap, -, hrun', hmore⟩ := runProgram_append hfirst
  rw [hrun] at hrun'
  cases hrun'
  have hwhole := hmore (stmt :: rest) (List.cons_ne_nil _ _)
  rw [← hsplit] at hwhole
  exact hwhole

end Statements

/-- Let two limits be set, the second no less than the first, and the second not too great to be put in
force, unless the first one is too.

What an evaluation does under the first is what it does under the second, or a beginning of it.  If it does
not fail for depth, it has the same result under both and leaves the same heap.  If a program fails for
depth, it does so in one of its statements; those before it complete under both limits, with the same value
and the same heap, and the whole goes on from there under each. -/
theorem evaluate_with_greater_limit {s s' : Settings} {n m : Int} (hs : s.limit = .ok n)
    (hs' : s'.limit = .ok m) (hle : n ≤ m)
    (hm : m ≤ greatestLimit ∨ greatestLimit < n) (scope : ScopeId) (h : Heap) :
    (∀ node, (recordEvaluate s scope node h).1 <+: (recordEvaluate s' scope node h).1) ∧
      (∀ node, (evaluate s scope node h).1 ≠ .error .tooDeep →
        evaluate s' scope node h = evaluate s scope node h) ∧
      ∀ p after, runProgram s scope p h = (.error .tooDeep, after) →
        ∃ first stmt rest v reached, p.statements = first ++ stmt :: rest ∧
          runProgram s scope ⟨first⟩ h = (.ok v, reached) ∧
          runProgram s' scope ⟨first⟩ h = (.ok v, reached) ∧
          evaluate s scope (.statement stmt) reached = (.error .tooDeep, after) ∧
          runProgram s scope p h = runProgram s scope ⟨stmt :: rest⟩ reached ∧
          runProgram s' scope p h = runProgram s' scope ⟨stmt :: rest⟩ reached := by
  have habridges := recordEvaluate_abridges hs hs' hle hm scope
  have hsame : ∀ node, (evaluate s scope node h).1 ≠ .error .tooDeep →
      evaluate s' scope node h = evaluate s scope node h := by
    intro node hfinishes
    rw [evaluate_eq] at hfinishes
    rcases habridges node h with hsame | ⟨hdeep, -⟩
    · rw [evaluate_eq, evaluate_eq, hsame]
    · exact absurd hdeep hfinishes
  refine ⟨?_, hsame, ?_⟩
  · intro node
    rcases habridges node h with hsame | ⟨-, hbeginning⟩
    · exact (congrArg Prod.fst hsame) ▸ List.prefix_refl _
    · exact hbeginning
  · intro p after hcut
    have hm : m ≤ greatestLimit := by
      refine hm.resolve_right fun hn => ?_
      rw [runProgram, evaluate_eq, recordEvaluate_of_limit_too_great hs hn] at hcut
      cases hcut
    obtain ⟨limit, limit', hlimit, hlimit', hdepth⟩ := exists_depths hs hs' hle hm
    obtain ⟨first, stmt, rest, v, reached, hsplit, hfirst, hrun, hstmt⟩ :=
      exists_of_runProgram_tooDeep hlimit hcut
    have hrun' : runProgram s' scope ⟨first⟩ h = (.ok v, reached) := by
      rw [← hrun]
      refine hsame (.program ⟨first⟩) ?_
      rw [← runProgram, hrun]
      simp
    refine ⟨first, stmt, rest, v, reached, hsplit, hrun, hrun', hstmt, ?_, ?_⟩
    · refine runProgram_split hsplit ?_ hrun
      rw [Program.completes, hlimit]
      exact hfirst
    · refine runProgram_split hsplit ?_ hrun'
      rw [Program.completes, hlimit']
      exact completesAll_of_deeper hdepth hfirst

/-- A binding, a function that calls itself for ever, and a call of it: under the base limit the third
statement is cut off, and the binding is there under every limit. -/
theorem evaluate_with_greater_limit_endless :
    let p : Program := ⟨[.bind "a" (.integer 1),
      .bind "f" (.function [] [.expr (.call (.ident "f") [])]), .expr (.call (.ident "f") [])]⟩
    let s : Settings := ⟨none, none, some "1"⟩
    let start := Session.new .default
    ∃ after first stmt rest v reached, p.statements = first ++ stmt :: rest ∧
      runProgram s start.scope p start.heap = (.error .tooDeep, after) ∧
      runProgram s start.scope ⟨first⟩ start.heap = (.ok v, reached) ∧
      runProgram .unset start.scope ⟨first⟩ start.heap = (.ok v, reached) := by
  intro p s start
  have hs : s.limit = .ok 1 := Parser.eq_ok_of_toOption (by decide +kernel)
  have hcut : ∃ after, runProgram s start.scope p start.heap = (.error .tooDeep, after) := by
    have hfails : (((runProgram s start.scope p start.heap).1.map fun _ => none).tryCatch
        fun failure => .ok (some failure)).toOption = some (some .tooDeep) := by
      decide +kernel
    generalize runProgram s start.scope p start.heap = result at hfails ⊢
    obtain ⟨outcome, after⟩ := result
    cases outcome with
    | error failure =>
        cases hfails
        exact ⟨after, rfl⟩
    | ok value => cases hfails
  obtain ⟨after, hcut⟩ := hcut
  have hunset : Settings.unset.limit = .ok 10000 := rfl
  obtain ⟨-, -, hstatements⟩ := evaluate_with_greater_limit hs hunset (by decide)
    (.inl (by decide)) start.scope start.heap
  obtain ⟨first, stmt, rest, v, reached, hsplit, hfirst, hfirst', -⟩ := hstatements p after hcut
  exact ⟨after, first, stmt, rest, v, reached, hsplit, hcut, hfirst, hfirst'⟩

/-- A limit can be too great to be put in force: then a program that finishes under a smaller one fails
before anything of it runs. -/
theorem unenforceable_limit_fails :
    let p : Program := ⟨[.bind "a" (.integer 1)]⟩
    let s : Settings := ⟨none, none, some "2147483648"⟩
    let start := Session.new .default
    Settings.unset.limit = .ok 10000 ∧ s.limit = .ok 2147483648 ∧
      runProgram .unset start.scope p start.heap =
        (.ok (.integer 1), start.heap.bind start.scope "a" (.integer 1)) ∧
      runProgram s start.scope p start.heap = (.error (.badLimit .tooLarge), start.heap) := by
  intro p s start
  have hs : s.limit = .ok 2147483648 := Parser.eq_ok_of_toOption (by decide +kernel)
  refine ⟨rfl, hs, rfl, ?_⟩
  rw [runProgram, evaluate_eq, recordEvaluate_of_limit_too_great hs (by decide)]
  rfl

end Scriptlet
