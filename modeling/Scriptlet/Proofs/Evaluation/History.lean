import Scriptlet.Session

/-!
# Histories

What happens during an evaluation, moment by moment.

**Events.**  A history is a list of events.  Some of them change the heap: an object gets its number, a
name is bound, a call makes a scope.  The others only say what was come to: a call is made, a block or
an expression has a value, a call leaves its scope.  `replay` takes a heap through a history, so every
beginning of a history gives the heap of one moment.

**Recorded evaluations.**  A recorded evaluation yields its history and its outcome; the heap after it
is, by definition, the replay of its history.  `Expr.record` and its companions are the evaluator with
every event recorded.

**Results.**  `evaluate_eq` and `run_eq`: recording changes neither the outcome nor the heap, so what
is said about histories is said about evaluations.
-/

namespace Scriptlet

/-- What happens during an evaluation. -/
inductive Event where
  /-- An object gets its number. -/
  | numbered
  /-- A name is bound. -/
  | bound (scope : ScopeId) (name : String) (value : Value)
  /-- A call is about to be made. -/
  | calling (f : Value) (arguments : List Value)
  /-- The call of a function makes its scope. -/
  | entered (scope : ScopeId) (f : Closure) (arguments : List Value)
  /-- A block has come to a value. -/
  | closed (scope : ScopeId) (body : Block) (value : Value)
  /-- The call that made the scope returns. -/
  | left (scope : ScopeId)
  /-- A call has come to a value. -/
  | called (f : Value) (value : Value)
  /-- An expression has come to a value. -/
  | yielded (scope : ScopeId) (e : Expr) (value : Value)

/-- What an event does to the heap. -/
def Event.apply : Event → Heap → Heap
  | numbered, h => { h with serial := h.serial + 1 }
  | bound scope name value, h => h.bind scope name value
  | entered _ f arguments, h => h.addInside f.scope (bindParameters [] f.parameters arguments)
  | _, h => h

/-- The heap after a history. -/
def replay (events : List Event) (h : Heap) : Heap :=
  events.foldl (fun h event => event.apply h) h

@[simp] theorem replay_nil (h : Heap) : replay [] h = h := rfl

@[simp] theorem replay_cons (event : Event) (events : List Event) (h : Heap) :
    replay (event :: events) h = replay events (event.apply h) := rfl

@[simp] theorem replay_append (events more : List Event) (h : Heap) :
    replay (events ++ more) h = replay more (replay events h) := by
  simp only [replay, List.foldl_append]

/-- An evaluation that yields its history and its outcome. -/
def Recorded (α : Type) :=
  Heap → List Event × Except Halt α

namespace Recorded

variable {α β : Type}

instance : Monad Recorded where
  pure a := fun _ => ([], .ok a)
  bind x f := fun h =>
    match x h with
    | (events, .error e) => (events, .error e)
    | (events, .ok a) =>
        (events ++ (f a (replay events h)).1, (f a (replay events h)).2)

theorem run_pure (a : α) (h : Heap) : (pure a : Recorded α) h = ([], .ok a) := rfl

theorem run_bind (x : Recorded α) (f : α → Recorded β) (h : Heap) :
    (x >>= f) h =
      match x h with
      | (events, .error e) => (events, .error e)
      | (events, .ok a) =>
          (events ++ (f a (replay events h)).1, (f a (replay events h)).2) := rfl

/-- Something happens. -/
def happen (event : Event) : Recorded Unit :=
  fun _ => ([event], .ok ())

/-- The evaluation stops for good. -/
def halt (cause : Halt) : Recorded α :=
  fun _ => ([], .error cause)

/-- A number for a new object. -/
def newSerial : Recorded Nat :=
  fun h => ([.numbered], .ok h.serial)

/-- The meaning of a name. -/
def name (scope : ScopeId) (text : String) : Recorded Value :=
  fun h => ([], .ok ((h.resolve scope text).getD (RuntimeError.notFound text).value))

/-- Binds a name, and yields the value bound. -/
def bind (scope : ScopeId) (text : String) (v : Value) : Recorded Value := do
  happen (.bound scope text v)
  return v

/-- Makes the scope of a call. -/
def enter (f : Closure) (arguments : List Value) : Recorded ScopeId :=
  fun h => ([.entered h.next f arguments], .ok h.next)

/-- Goes on with a value, unless it is an error. -/
def unlessError (x : Recorded Value) (go : Value → Recorded Value) : Recorded Value := do
  let v ← x
  if v.isError then
    return v
  else
    go v

/-- Notes the value that something has come to. -/
def noting (event : Value → Event) (x : Recorded Value) : Recorded Value := do
  let v ← x
  happen (event v)
  return v

end Recorded

/-- The meaning of calls, recorded. -/
abbrev RecordedCaller := Value → List Value → Recorded Value

section Recording

open Recorded

mutual

/-- The value of an expression, recorded. -/
def Expr.record (call : RecordedCaller) (scope : ScopeId) : Expr → Recorded Value
  | .ident text => noting (.yielded scope (.ident text)) (Recorded.name scope text)
  | .integer value => noting (.yielded scope (.integer value)) (return .integer value)
  | .boolean value => noting (.yielded scope (.boolean value)) (return .boolean value)
  | .string value => noting (.yielded scope (.string value)) (return .string value)
  | .unary op right =>
      noting (.yielded scope (.unary op right)) <|
        unlessError (right.record call scope) fun v => return applyUnary op v
  | .binary left op right =>
      noting (.yielded scope (.binary left op right)) <|
        unlessError (left.record call scope) fun a =>
          unlessError (right.record call scope) fun b => return applyBinary op a b
  | .conditional condition consequence alternative =>
      noting (.yielded scope (.conditional condition consequence alternative)) <|
        unlessError (condition.record call scope) fun v =>
          if v.truthy then
            noting (.closed scope consequence) (Stmt.recordAll call scope .null consequence)
          else
            match alternative with
            | none => return .null
            | some block => noting (.closed scope block) (Stmt.recordAll call scope .null block)
  | .function parameters body =>
      noting (.yielded scope (.function parameters body)) do
        let serial ← newSerial
        return .function ⟨serial, parameters, body, scope⟩
  | .call callee arguments =>
      noting (.yielded scope (.call callee arguments)) <|
        unlessError (callee.record call scope) fun f => do
          match ← Expr.recordAll call scope arguments with
          | .error e => return e
          | .ok vs =>
              happen (.calling f vs)
              noting (.called f) (call f vs)
  | .array elements =>
      noting (.yielded scope (.array elements)) do
        match ← Expr.recordAll call scope elements with
        | .error e => return e
        | .ok vs => return .array vs
  | .index left subscript =>
      noting (.yielded scope (.index left subscript)) <|
        unlessError (left.record call scope) fun a =>
          unlessError (subscript.record call scope) fun b => return applyIndex a b
  | .hash pairs =>
      noting (.yielded scope (.hash pairs)) (return RuntimeError.hashUnsupported.value)
  | .foreign typeName =>
      noting (.yielded scope (.foreign typeName)) (return (RuntimeError.foreignObject typeName).value)

/-- The values of expressions from left to right, recorded. -/
def Expr.recordAll (call : RecordedCaller) (scope : ScopeId) :
    List Expr → Recorded (Except Value (List Value))
  | [] => return .ok []
  | e :: rest => do
      let v ← e.record call scope
      if v.isError then
        return .error v
      else
        match ← Expr.recordAll call scope rest with
        | .error e => return .error e
        | .ok vs => return .ok (v :: vs)

/-- The value of a statement, recorded. -/
def Stmt.record (call : RecordedCaller) (scope : ScopeId) : Stmt → Recorded Value
  | .bind text value =>
      unlessError (value.record call scope) fun v => Recorded.bind scope text v
  | .ret value =>
      unlessError (value.record call scope) fun v => do
        let serial ← newSerial
        return .returned serial v
  | .expr expression => expression.record call scope
  | .block body => noting (.closed scope body) (Stmt.recordAll call scope .null body)

/-- The value of a sequence of statements, recorded. -/
def Stmt.recordAll (call : RecordedCaller) (scope : ScopeId) (last : Value) :
    List Stmt → Recorded Value
  | [] => return last
  | s :: rest => do
      let v ← s.record call scope
      if v.stops then
        return v
      else
        Stmt.recordAll call scope v rest

end

/-- The value of any phrase, recorded. -/
def Node.record (call : RecordedCaller) (scope : ScopeId) : Node → Recorded Value
  | program p => do
      let v ← Stmt.recordAll call scope .null p.statements
      return v.unwrapped
  | statement s => s.record call scope
  | expression e => e.record call scope

/-- The value of a block, recorded. -/
def Stmt.recordBlock (call : RecordedCaller) (scope : ScopeId) (body : Block) : Recorded Value :=
  noting (.closed scope body) (Stmt.recordAll call scope .null body)

/-- Calls that nest at most so deep, recorded. -/
def recordWithin [Natives] : Nat → RecordedCaller
  | 0, .function _, _ => halt .callsTooDeep
  | depth + 1, .function f, arguments => do
      let scope ← enter f arguments
      let v ← Stmt.recordBlock (recordWithin depth) scope f.body
      happen (.left scope)
      return v.unwrapped
  | _, .builtin b, arguments => return b.call arguments
  | _, v, _ => return (RuntimeError.notFunction v.kind).value

/-- The history of a call: it makes its scope, runs its body there, and leaves the scope unless the
body stops for good. -/
theorem recordWithin_function [Natives] (depth : Nat) (f : Closure) (arguments : List Value) (h : Heap) :
    recordWithin (depth + 1) (.function f) arguments h =
      match Stmt.recordBlock (recordWithin depth) h.next f.body
          ((Event.entered h.next f arguments).apply h) with
      | (events, .error e) => (.entered h.next f arguments :: events, .error e)
      | (events, .ok v) =>
          (.entered h.next f arguments :: (events ++ [.left h.next]), .ok v.unwrapped) := by
  have hrun : recordWithin (depth + 1) (.function f) arguments h =
      ([.entered h.next f arguments] ++
        ((Stmt.recordBlock (recordWithin depth) h.next f.body >>= fun v =>
          happen (.left h.next) >>= fun _ => pure v.unwrapped)
            ((Event.entered h.next f arguments).apply h)).1,
        ((Stmt.recordBlock (recordWithin depth) h.next f.body >>= fun v =>
          happen (.left h.next) >>= fun _ => pure v.unwrapped)
            ((Event.entered h.next f arguments).apply h)).2) := rfl
  rw [hrun, run_bind]
  generalize Stmt.recordBlock (recordWithin depth) h.next f.body
    ((Event.entered h.next f arguments).apply h) = result
  obtain ⟨events, outcome⟩ := result
  cases outcome with
  | error e => rfl
  | ok v => rfl

end Recording

section Following

variable {α β : Type}

/-- The recorded evaluation has the same outcome, and its history leads to the same heap. -/
def Follows (x : Eval α) (y : Recorded α) : Prop :=
  ∀ h, x.start h = ((y h).2, replay (y h).1 h)

theorem follows_pure (a : α) : Follows (pure a) (pure a) :=
  fun _ => rfl

theorem Follows.bind {x : Eval α} {y : Recorded α} {f : α → Eval β} {g : α → Recorded β}
    (hxy : Follows x y) (hfg : ∀ a, Follows (f a) (g a)) : Follows (x >>= f) (y >>= g) := by
  intro h
  rw [Eval.start_bind, Recorded.run_bind, hxy h]
  generalize y h = result
  obtain ⟨events, outcome⟩ := result
  cases outcome with
  | error e => rfl
  | ok a =>
      show (f a).start (replay events h) = _
      rw [hfg a, replay_append]

/-- Noting a value changes nothing. -/
theorem Follows.noting {x : Eval Value} {y : Recorded Value} {event : Value → Event}
    (hxy : Follows x y) (hsilent : ∀ v h, (event v).apply h = h) :
    Follows x (Recorded.noting event y) := by
  intro h
  rw [hxy h, Recorded.noting, Recorded.run_bind]
  generalize y h = result
  obtain ⟨events, outcome⟩ := result
  cases outcome with
  | error e => rfl
  | ok v =>
      show (Except.ok v, replay events h) = (Except.ok v, replay (events ++ [event v]) h)
      rw [replay_append, replay_cons, replay_nil, hsilent]

theorem Follows.unlessError {x : Eval Value} {y : Recorded Value} {f : Value → Eval Value}
    {g : Value → Recorded Value} (hxy : Follows x y) (hfg : ∀ a, Follows (f a) (g a)) :
    Follows (Eval.unlessError x f) (Recorded.unlessError y g) := by
  refine hxy.bind ?_
  intro v
  by_cases hv : v.isError = true
  · rw [if_pos hv, if_pos hv]
    exact follows_pure v
  · rw [if_neg hv, if_neg hv]
    exact hfg v

theorem follows_name (scope : ScopeId) (text : String) :
    Follows (Eval.name scope text) (Recorded.name scope text) := by
  intro h
  have hget : (get : Eval Heap).start h = (.ok h, h) := rfl
  rw [Eval.name, Eval.start_bind, hget]
  simp only [Recorded.name, replay_nil]
  cases h.resolve scope text with
  | none => rfl
  | some v => rfl

theorem follows_newSerial : Follows Eval.newSerial Recorded.newSerial :=
  fun _ => rfl

theorem follows_bind (scope : ScopeId) (text : String) (v : Value) :
    Follows (Eval.bind scope text v) (Recorded.bind scope text v) :=
  fun _ => rfl

theorem follows_enter (f : Closure) (arguments : List Value) :
    Follows (Eval.enter f arguments) (Recorded.enter f arguments) :=
  fun _ => rfl

/-- Something that leaves the heap alone may happen first. -/
theorem Follows.after {x : Eval α} {y : Recorded α} {event : Event} (hxy : Follows x y)
    (hsilent : ∀ h, event.apply h = h) : Follows x (Recorded.happen event >>= fun _ => y) := by
  intro h
  have hrun : (Recorded.happen event >>= fun _ => y) h =
      ([event] ++ (y (event.apply h)).1, (y (event.apply h)).2) := rfl
  rw [hrun, hsilent, hxy h, replay_append, replay_cons, replay_nil, hsilent]

variable {call : Caller} {call' : RecordedCaller}

mutual

theorem Expr.follows
    (hcall : ∀ f arguments, Follows (call f arguments) (call' f arguments)) (scope : ScopeId) :
    (e : Expr) → Follows (e.eval call scope) (e.record call' scope)
  | .ident text => (follows_name scope text).noting fun _ _ => rfl
  | .integer value => (follows_pure _).noting fun _ _ => rfl
  | .boolean value => (follows_pure _).noting fun _ _ => rfl
  | .string value => (follows_pure _).noting fun _ _ => rfl
  | .unary op right => by
      refine Follows.noting ?_ fun _ _ => rfl
      exact (right.follows hcall scope).unlessError fun v => follows_pure _
  | .binary left op right => by
      refine Follows.noting ?_ fun _ _ => rfl
      refine (left.follows hcall scope).unlessError fun a => ?_
      exact (right.follows hcall scope).unlessError fun b => follows_pure _
  | .conditional condition consequence none => by
      refine Follows.noting ?_ fun _ _ => rfl
      refine (condition.follows hcall scope).unlessError fun v => ?_
      by_cases hv : v.truthy = true
      · rw [if_pos hv, if_pos hv]
        exact (Stmt.followsAll hcall scope .null consequence).noting fun _ _ => rfl
      · rw [if_neg hv, if_neg hv]
        exact follows_pure _
  | .conditional condition consequence (some block) => by
      refine Follows.noting ?_ fun _ _ => rfl
      refine (condition.follows hcall scope).unlessError fun v => ?_
      by_cases hv : v.truthy = true
      · rw [if_pos hv, if_pos hv]
        exact (Stmt.followsAll hcall scope .null consequence).noting fun _ _ => rfl
      · rw [if_neg hv, if_neg hv]
        exact (Stmt.followsAll hcall scope .null block).noting fun _ _ => rfl
  | .function parameters body => by
      refine Follows.noting ?_ fun _ _ => rfl
      exact follows_newSerial.bind fun serial => follows_pure _
  | .call callee arguments => by
      refine Follows.noting ?_ fun _ _ => rfl
      refine (callee.follows hcall scope).unlessError fun f => ?_
      refine (Expr.followsAll hcall scope arguments).bind fun result => ?_
      cases result with
      | error e => exact follows_pure _
      | ok vs => exact ((hcall f vs).noting fun _ _ => rfl).after fun _ => rfl
  | .array elements => by
      refine Follows.noting ?_ fun _ _ => rfl
      refine (Expr.followsAll hcall scope elements).bind fun result => ?_
      cases result with
      | error e => exact follows_pure _
      | ok vs => exact follows_pure _
  | .index left subscript => by
      refine Follows.noting ?_ fun _ _ => rfl
      refine (left.follows hcall scope).unlessError fun a => ?_
      exact (subscript.follows hcall scope).unlessError fun b => follows_pure _
  | .hash pairs => (follows_pure _).noting fun _ _ => rfl
  | .foreign typeName => (follows_pure _).noting fun _ _ => rfl

theorem Expr.followsAll
    (hcall : ∀ f arguments, Follows (call f arguments) (call' f arguments)) (scope : ScopeId) :
    (es : List Expr) → Follows (Expr.evalAll call scope es) (Expr.recordAll call' scope es)
  | [] => follows_pure _
  | e :: rest => by
      refine (e.follows hcall scope).bind fun v => ?_
      by_cases hv : v.isError = true
      · rw [if_pos hv, if_pos hv]
        exact follows_pure _
      · rw [if_neg hv, if_neg hv]
        refine (Expr.followsAll hcall scope rest).bind fun result => ?_
        cases result with
        | error e => exact follows_pure _
        | ok vs => exact follows_pure _

theorem Stmt.follows
    (hcall : ∀ f arguments, Follows (call f arguments) (call' f arguments)) (scope : ScopeId) :
    (s : Stmt) → Follows (s.eval call scope) (s.record call' scope)
  | .bind text value => (value.follows hcall scope).unlessError fun v => follows_bind scope text v
  | .ret value => by
      refine (value.follows hcall scope).unlessError fun v => ?_
      exact follows_newSerial.bind fun serial => follows_pure _
  | .expr expression => expression.follows hcall scope
  | .block body => (Stmt.followsAll hcall scope .null body).noting fun _ _ => rfl

theorem Stmt.followsAll
    (hcall : ∀ f arguments, Follows (call f arguments) (call' f arguments)) (scope : ScopeId)
    (last : Value) :
    (body : List Stmt) →
      Follows (Stmt.evalAll call scope last body) (Stmt.recordAll call' scope last body)
  | [] => follows_pure _
  | s :: rest => by
      refine (s.follows hcall scope).bind fun v => ?_
      by_cases hv : v.stops = true
      · rw [if_pos hv, if_pos hv]
        exact follows_pure _
      · rw [if_neg hv, if_neg hv]
        exact Stmt.followsAll hcall scope v rest

end

theorem Node.follows
    (hcall : ∀ f arguments, Follows (call f arguments) (call' f arguments)) (scope : ScopeId) (n : Node) :
    Follows (n.eval call scope) (n.record call' scope) := by
  cases n with
  | program p => exact (Stmt.followsAll hcall scope .null p.statements).bind fun v => follows_pure _
  | statement s => exact s.follows hcall scope
  | expression e => exact e.follows hcall scope

end Following

theorem recordWithin_follows [Natives] (depth : Nat) (f : Value) (arguments : List Value) :
    Follows (callWithin depth f arguments) (recordWithin depth f arguments) := by
  induction depth generalizing f arguments with
  | zero =>
      cases f with
      | function f => exact fun _ => rfl
      | _ => exact follows_pure _
  | succ depth ih =>
      cases f with
      | function f =>
          refine (follows_enter f arguments).bind fun scope => ?_
          refine ((Stmt.followsAll ih scope .null f.body).noting fun _ _ => rfl).bind fun v => ?_
          exact (follows_pure _).after fun _ => rfl
      | _ => exact follows_pure _

section Runs

/-- The history and the outcome of evaluating a phrase in a scope. -/
def recordEvaluate [Natives] (settings : Settings) (scope : ScopeId) (n : Node) (h : Heap) :
    List Event × Except Failure Value :=
  match settings.limitInForce with
  | .error fault => ([], .error (.badLimit fault))
  | .ok limit =>
      match n.record (recordWithin (callDepth limit)) scope h with
      | (events, .error .callsTooDeep) => (events, .error .tooDeep)
      | (events, .ok v) => (events, .ok v)

/-- The history and the outcome of running a source in a scope. -/
def recordRun [Natives] (settings : Settings) (scope : ScopeId) (source : String) (h : Heap) :
    List Event × Except Failure Value :=
  match parse source with
  | .error fault => ([], .error (.ofFault fault))
  | .ok parsed =>
      if parsed.errors = [] then recordEvaluate settings scope (.program parsed.program) h
      else ([], .error (.malformed parsed.errors))

theorem evaluate_eq [Natives] (settings : Settings) (scope : ScopeId) (n : Node) (h : Heap) :
    evaluate settings scope n h =
      ((recordEvaluate settings scope n h).2, replay (recordEvaluate settings scope n h).1 h) := by
  unfold evaluate evaluateWithin recordEvaluate
  cases settings.limitInForce with
  | error fault => rfl
  | ok limit =>
      have hfollows := n.follows (recordWithin_follows (callDepth limit)) scope h
      simp only [hfollows]
      generalize n.record (recordWithin (callDepth limit)) scope h = result
      obtain ⟨events, outcome⟩ := result
      cases outcome with
      | error cause =>
          cases cause
          rfl
      | ok v => rfl

theorem run_eq [Natives] (settings : Settings) (scope : ScopeId) (source : String) (h : Heap) :
    run settings scope source h =
      ((recordRun settings scope source h).2, replay (recordRun settings scope source h).1 h) := by
  unfold run runWithin recordRun
  cases parse source with
  | error fault => rfl
  | ok parsed =>
      by_cases herrors : parsed.errors = []
      · simp only [if_pos herrors]
        exact evaluate_eq settings scope (.program parsed.program) h
      · simp only [if_neg herrors]
        rfl

/-- An evaluation fails at once, or is recorded at some depth, where the one way to stop for good is to
be too deep. -/
theorem recordEvaluate_cases [Natives] (settings : Settings) (scope : ScopeId) (n : Node) (h : Heap) :
    (∃ failure, recordEvaluate settings scope n h = ([], .error failure)) ∨
      ∃ depth, recordEvaluate settings scope n h =
        ((n.record (recordWithin depth) scope h).1,
          (n.record (recordWithin depth) scope h).2.mapError fun _ => .tooDeep) := by
  unfold recordEvaluate
  cases settings.limitInForce with
  | error fault => exact .inl ⟨_, rfl⟩
  | ok limit =>
      refine .inr ⟨callDepth limit, ?_⟩
      simp only
      generalize n.record (recordWithin (callDepth limit)) scope h = result
      obtain ⟨events, outcome⟩ := result
      cases outcome with
      | error cause =>
          cases cause
          rfl
      | ok v => rfl

/-- A run fails at once, or evaluates a program that was read without errors. -/
theorem recordRun_cases [Natives] (settings : Settings) (scope : ScopeId) (source : String) (h : Heap) :
    (∃ failure, recordRun settings scope source h = ([], .error failure)) ∨
      ∃ p, parse source = .ok ⟨p, []⟩ ∧
        recordRun settings scope source h = recordEvaluate settings scope (.program p) h := by
  unfold recordRun
  cases parse source with
  | error fault => exact .inl ⟨_, rfl⟩
  | ok parsed =>
      obtain ⟨p, errors⟩ := parsed
      cases errors with
      | nil => exact .inr ⟨p, rfl, rfl⟩
      | cons e rest => exact .inl ⟨_, rfl⟩

theorem eq_ok_of_mapError {ε ε' α : Type} {f : ε → ε'} {x : Except ε α} {a : α}
    (h : x.mapError f = .ok a) : x = .ok a := by
  cases x with
  | error e => cases h
  | ok b =>
      cases h
      rfl

end Runs

namespace Session

/-- Runs sources one after the other, each under its own settings. -/
def runAll [Natives] (s : Session) : List (Settings × String) → List (Except Failure Value) × Session
  | [] => ([], s)
  | (settings, source) :: rest =>
      let (result, after) := s.run settings source
      let (results, last) := after.runAll rest
      (result :: results, last)

/-- The history of running sources one after the other. -/
def history [Natives] (s : Session) : List (Settings × String) → List Event
  | [] => []
  | (settings, source) :: rest =>
      (recordRun settings s.scope source s.heap).1 ++ (s.run settings source).2.history rest

theorem outcome_run [Natives] (s : Session) (settings : Settings) (source : String) :
    (s.run settings source).1 = (recordRun settings s.scope source s.heap).2 :=
  congrArg Prod.fst (run_eq settings s.scope source s.heap)

/-- A result of a session is that of its first run, or one of the others. -/
theorem mem_runAll_cons [Natives] {s : Session} {settings : Settings} {source : String}
    {rest : List (Settings × String)} {result : Except Failure Value}
    (h : result ∈ (s.runAll ((settings, source) :: rest)).1) :
    (recordRun settings s.scope source s.heap).2 = result ∨
      result ∈ ((s.run settings source).2.runAll rest).1 := by
  rcases List.mem_cons.mp h with h | h
  · exact .inl ((outcome_run s settings source).symm.trans h.symm)
  · exact .inr h

theorem heap_run [Natives] (s : Session) (settings : Settings) (source : String) :
    (s.run settings source).2 =
      { s with heap := replay (recordRun settings s.scope source s.heap).1 s.heap } :=
  congrArg (fun result => (⟨result.2, s.scope⟩ : Session)) (run_eq settings s.scope source s.heap)

/-- The history of a session leads to its heap. -/
theorem heap_runAll [Natives] (s : Session) (sources : List (Settings × String)) :
    (s.runAll sources).2.heap = replay (s.history sources) s.heap := by
  induction sources generalizing s with
  | nil => rfl
  | cons source rest ih =>
      obtain ⟨settings, source⟩ := source
      show ((s.run settings source).2.runAll rest).2.heap = _
      rw [ih, history, replay_append, heap_run]

end Session

end Scriptlet
