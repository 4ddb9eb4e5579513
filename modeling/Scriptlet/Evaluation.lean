import Scriptlet.Operation
import Scriptlet.Scope

/-!
# Evaluation

A phrase is evaluated in a scope and yields a value.

**Errors** are values that everything hands on: the first one ends the evaluation.

**Return.**  A `return` yields a wrapped value, which blocks hand on and which a call and a program
unwrap by one level.  Any other place takes a wrapped value as it is.

**Scopes.**  The blocks of a conditional run in the scope around them; only a call makes a scope,
inside the one its function was made in.

**Depth.**  Calls may nest only so deep.  An evaluation that goes deeper stops for good; what it
has bound by then stays.

Phrases are evaluated by recursion on the phrase, given the meaning of calls; calls are given
their meaning by recursion on the depth that is left.

**Result.**  `Eval.start_bind`: an evaluation goes on in the heap that the one before it left,
unless that one stopped for good.
-/

namespace Scriptlet

/-- What stops an evaluation for good. -/
inductive Halt where
  | callsTooDeep
  deriving DecidableEq, Repr

/-- An evaluation works on the heap, and may stop for good. -/
abbrev Eval := ExceptT Halt (StateM Heap)

namespace Eval

/-- Runs an evaluation. -/
def start {α : Type} (x : Eval α) (h : Heap) : Except Halt α × Heap :=
  StateT.run (ExceptT.run x) h

theorem start_pure {α : Type} (a : α) (h : Heap) : (pure a : Eval α).start h = (.ok a, h) := rfl

theorem start_bind {α β : Type} (x : Eval α) (f : α → Eval β) (h : Heap) :
    (x >>= f).start h =
      match x.start h with
      | (.error e, after) => (.error e, after)
      | (.ok a, after) => (f a).start after := by
  simp only [start, ExceptT.run_bind, StateT.run_bind]
  generalize StateT.run (ExceptT.run x) h = result
  obtain ⟨a, after⟩ := result
  cases a <;> rfl

/-- A number for a new object. -/
def newSerial : Eval Nat :=
  modifyGet fun h => (h.serial, { h with serial := h.serial + 1 })

/-- The meaning of a name. -/
def name (scope : ScopeId) (text : String) : Eval Value := do
  match (← get).resolve scope text with
  | some v => return v
  | none => return (RuntimeError.notFound text).value

/-- Binds a name, and yields the value bound. -/
def bind (scope : ScopeId) (text : String) (v : Value) : Eval Value := do
  modify fun h => h.bind scope text v
  return v

/-- Makes the scope of a call. -/
def enter (f : Closure) (arguments : List Value) : Eval ScopeId :=
  modifyGet fun h => (h.next, h.addInside f.scope (bindParameters [] f.parameters arguments))

/-- Goes on with a value, unless it is an error. -/
def unlessError (x : Eval Value) (go : Value → Eval Value) : Eval Value := do
  let v ← x
  if v.isError then
    return v
  else
    go v

end Eval

/-- The meaning of calls. -/
abbrev Caller := Value → List Value → Eval Value

mutual

/-- The value of an expression. -/
def Expr.eval (call : Caller) (scope : ScopeId) : Expr → Eval Value
  | .ident text => Eval.name scope text
  | .integer value => return .integer value
  | .boolean value => return .boolean value
  | .string value => return .string value
  | .unary op right =>
      Eval.unlessError (right.eval call scope) fun v => return applyUnary op v
  | .binary left op right =>
      Eval.unlessError (left.eval call scope) fun a =>
        Eval.unlessError (right.eval call scope) fun b => return applyBinary op a b
  | .conditional condition consequence alternative =>
      Eval.unlessError (condition.eval call scope) fun v =>
        if v.truthy then
          Stmt.evalAll call scope .null consequence
        else
          match alternative with
          | none => return .null
          | some block => Stmt.evalAll call scope .null block
  | .function parameters body => do
      let serial ← Eval.newSerial
      return .function ⟨serial, parameters, body, scope⟩
  | .call callee arguments =>
      Eval.unlessError (callee.eval call scope) fun f => do
        match ← Expr.evalAll call scope arguments with
        | .error e => return e
        | .ok vs => call f vs
  | .array elements => do
      match ← Expr.evalAll call scope elements with
      | .error e => return e
      | .ok vs => return .array vs
  | .index left subscript =>
      Eval.unlessError (left.eval call scope) fun a =>
        Eval.unlessError (subscript.eval call scope) fun b => return applyIndex a b
  | .hash _ => return RuntimeError.hashUnsupported.value
  | .foreign typeName => return (RuntimeError.foreignObject typeName).value

/-- The values of expressions from left to right, or the first error among them. -/
def Expr.evalAll (call : Caller) (scope : ScopeId) :
    List Expr → Eval (Except Value (List Value))
  | [] => return .ok []
  | e :: rest => do
      let v ← e.eval call scope
      if v.isError then
        return .error v
      else
        match ← Expr.evalAll call scope rest with
        | .error e => return .error e
        | .ok vs => return .ok (v :: vs)

/-- The value of a statement. -/
def Stmt.eval (call : Caller) (scope : ScopeId) : Stmt → Eval Value
  | .bind text value =>
      Eval.unlessError (value.eval call scope) fun v => Eval.bind scope text v
  | .ret value =>
      Eval.unlessError (value.eval call scope) fun v => do
        let serial ← Eval.newSerial
        return .returned serial v
  | .expr expression => expression.eval call scope
  | .block body => Stmt.evalAll call scope .null body

/-- The value of a sequence of statements: that of the first one that ends the sequence, or of the
last; `last` if there is none. -/
def Stmt.evalAll (call : Caller) (scope : ScopeId) (last : Value) : List Stmt → Eval Value
  | [] => return last
  | s :: rest => do
      let v ← s.eval call scope
      if v.stops then
        return v
      else
        Stmt.evalAll call scope v rest

end

/-- The value of a program. -/
def Program.eval (call : Caller) (scope : ScopeId) (p : Program) : Eval Value := do
  let v ← Stmt.evalAll call scope .null p.statements
  return v.unwrapped

/-- The value of any phrase. -/
def Node.eval (call : Caller) (scope : ScopeId) : Node → Eval Value
  | program p => p.eval call scope
  | statement s => s.eval call scope
  | expression e => e.eval call scope

/-- Calls that nest at most so deep. -/
def callWithin [Natives] : Nat → Caller
  | 0, .function _, _ => throw .callsTooDeep
  | depth + 1, .function f, arguments => do
      let scope ← Eval.enter f arguments
      let v ← Stmt.evalAll (callWithin depth) scope .null f.body
      return v.unwrapped
  | _, .builtin b, arguments => return b.call arguments
  | _, v, _ => return (RuntimeError.notFunction v.kind).value

end Scriptlet
