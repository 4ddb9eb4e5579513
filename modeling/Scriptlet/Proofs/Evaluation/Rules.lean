import Scriptlet.Proofs.Evaluation.Frame
import Scriptlet.Proofs.Evaluation.Lookup

/-!
# Rules of evaluation

What evaluation does, one rule for each construct, to run a program by hand from any heap.

**Rules.**  A rule tells what a phrase comes to from what its parts come to, and in which heap.  The operands
of an operator do not fail, and neither does what is called; the arguments of a call may, in any way.

**Heaps.**  `h.Kept h'`: every scope of `h` is in `h'`, as it was.  Names that are looked up from such a scope
mean in `h'` what they mean in `h`.  Only `let` changes a scope that is there; a call keeps all of them,
whatever it does, since it writes to scopes of its own.

**Results.**
* `Heap.Kept.resolve`, `Heap.resolve_addInside`, `Heap.resolve_bind`: what names mean after each operation.
* `kept_call`: a call keeps every scope.
* `Expr.start_call` and its companions: the rules.
* `Stmt.startAll_bind_function`: where a program stands that binds a function first.
* `outcome_runProgramWithin`: what a program comes to.
-/

namespace Scriptlet

namespace Heap

/-- Every scope that was there is there, as it was. -/
def Kept (h h' : Heap) : Prop :=
  ∀ j < h.next, h'.scopes[j]? = h.scopes[j]?

/-- The heap after one more object was made. -/
def counted (h : Heap) : Heap :=
  { h with serial := h.serial + 1 }

section Keeping

variable {h h' h'' : Heap} {scope outer : ScopeId}

theorem Kept.next_le (hk : h.Kept h') : h.next ≤ h'.next := by
  cases hn : h.next with
  | zero => exact Nat.zero_le _
  | succ n =>
      have hlt : n < h.next := Nat.lt_of_lt_of_eq (Nat.lt_succ_self n) hn.symm
      have hs : h'.scopes[n]? = some h.scopes[n] := by
        rw [hk n hlt]
        exact Array.getElem?_eq_getElem hlt
      obtain ⟨hlt', -⟩ := Array.getElem?_eq_some_iff.mp hs
      exact hlt'

theorem Kept.trans (hk : h.Kept h') (hk' : h'.Kept h'') : h.Kept h'' := by
  intro j hj
  rw [hk' j (Nat.lt_of_lt_of_le hj hk.next_le), hk j hj]

theorem kept_counted (h : Heap) : h.Kept h.counted :=
  fun _ _ => rfl

theorem kept_addInside (h : Heap) (outer : ScopeId) (bindings : Table String Value) :
    h.Kept (h.addInside outer bindings) := by
  intro j hj
  have hs : h.scopes[j]? = some h.scopes[j] := Array.getElem?_eq_getElem hj
  rw [hs]
  exact scopes_add hs _

theorem next_lt_add (h : Heap) (s : Scope) : h.next < (h.add s).next := by
  rw [next_add]
  exact Nat.lt_succ_self _

/-- A binding in a new scope leaves those before it as they were. -/
theorem Kept.bind (hk : h.Kept h') (hscope : h.next ≤ scope) (name : String) (v : Value) :
    h.Kept (h'.bind scope name v) := by
  intro j hj
  rw [scopes_bind_of_ne (Nat.ne_of_gt (Nat.lt_of_lt_of_le hj hscope)) name v, hk j hj]

theorem chain_congr (i : Nat) (hsame : ∀ j ≤ i, h'.scopes[j]? = h.scopes[j]?) :
    h'.chain i = h.chain i := by
  induction i using Nat.strongRecOn with
  | ind i ih =>
      rw [chain, chain, hsame i (Nat.le_refl i)]
      cases h.scopes[i]? with
      | none => rfl
      | some s =>
          cases houter : s.outer with
          | none => simp only [houter]
          | some outer =>
              simp only [houter]
              by_cases hlt : outer < i
              · rw [dif_pos hlt, dif_pos hlt, ih outer hlt]
                intro j hj
                exact hsame j (Nat.le_trans hj (Nat.le_of_lt hlt))
              · rw [dif_neg hlt, dif_neg hlt]

theorem Kept.lookup (hk : h.Kept h') (hscope : scope < h.next) (name : String) :
    h'.lookup scope name = h.lookup scope name := by
  rw [Heap.lookup, Heap.lookup, chain_congr scope]
  intro j hj
  exact hk j (Nat.lt_of_le_of_lt hj hscope)

theorem Kept.builtins (hk : h.Kept h') (hscope : scope < h.next) :
    h'.builtins scope = h.builtins scope := by
  rw [Heap.builtins, Heap.builtins, hk scope hscope]

theorem Kept.resolve (hk : h.Kept h') (hscope : scope < h.next) (name : String) :
    h'.resolve scope name = h.resolve scope name := by
  rw [Heap.resolve, Heap.resolve, hk.lookup hscope, hk.builtins hscope]

end Keeping

section Meanings

variable {h : Heap} {scope outer : ScopeId}

/-- In a new scope that nothing encloses, the names of the built-in functions mean them. -/
theorem resolve_addRoot (h : Heap) (builtins : Registry) (name : String) :
    (h.addRoot builtins).resolve h.next name = (builtins.get? name).map .builtin := by
  have hs : (h.addRoot builtins).scopes[h.next]? = some ⟨[], none, builtins⟩ := by
    simp [addRoot, add, next]
  have hbuiltins : (h.addRoot builtins).builtins h.next = builtins := by
    rw [Heap.builtins, hs]
  rw [resolve, lookup_root hs rfl, hbuiltins]
  rfl

/-- In a new scope a name means what it is bound to there, or else what it means in the scope around it. -/
theorem resolve_addInside (houter : outer < h.next) (bindings : Table String Value) (name : String) :
    (h.addInside outer bindings).resolve h.next name =
      (Table.get? name bindings).or (h.resolve outer name) := by
  have hkept := h.kept_addInside outer bindings
  have hs := scopes_addInside_new (h := h) rfl outer bindings
  have hbuiltins : (h.addInside outer bindings).builtins h.next = h.builtins outer := by
    rw [builtins, hs]
  rw [resolve, resolve, lookup_inside hs rfl houter, hkept.lookup houter, hbuiltins, Option.or_assoc]

/-- A binding changes the first scope of the chain. -/
theorem exists_chain_bind {s : Scope} (hs : h.scopes[scope]? = some s) (text : String) (v : Value) :
    ∃ farther, h.chain scope = s :: farther ∧
      (h.bind scope text v).chain scope =
        { s with bindings := Table.put text v s.bindings } :: farther := by
  rw [chain, chain, hs, scopes_bind_self hs text v]
  cases houter : s.outer with
  | none =>
      simp only [houter]
      exact ⟨[], rfl, rfl⟩
  | some outer =>
      simp only [houter]
      by_cases hlt : outer < scope
      · have hfarther : (h.bind scope text v).chain outer = h.chain outer := by
          refine chain_congr outer fun j hj => ?_
          exact scopes_bind_of_ne (Nat.ne_of_gt (Nat.lt_of_le_of_lt hj hlt)) text v
        rw [dif_pos hlt, dif_pos hlt, hfarther]
        exact ⟨h.chain outer, rfl, rfl⟩
      · rw [dif_neg hlt, dif_neg hlt]
        exact ⟨[], rfl, rfl⟩

theorem lookup_bind (hscope : scope < h.next) (text : String) (v : Value) (name : String) :
    (h.bind scope text v).lookup scope name =
      if text = name then some v else h.lookup scope name := by
  have hs : h.scopes[scope]? = some h.scopes[scope] := Array.getElem?_eq_getElem hscope
  obtain ⟨farther, hchain, hchain'⟩ := exists_chain_bind hs text v
  rw [lookup, lookup, hchain, hchain', List.findSome?_cons, List.findSome?_cons, Table.get?_put]
  by_cases hname : text = name
  · rw [if_pos hname, if_pos hname]
  · rw [if_neg hname, if_neg hname]

/-- After a binding the name means the value, and other names what they meant. -/
theorem resolve_bind (hscope : scope < h.next) (text : String) (v : Value) (name : String) :
    (h.bind scope text v).resolve scope name =
      if text = name then some v else h.resolve scope name := by
  have hs : h.scopes[scope]? = some h.scopes[scope] := Array.getElem?_eq_getElem hscope
  have hbuiltins : (h.bind scope text v).builtins scope = h.builtins scope := by
    rw [builtins, builtins, scopes_bind_self hs, hs]
  rw [resolve, resolve, lookup_bind hscope, hbuiltins]
  by_cases hname : text = name
  · rw [if_pos hname, if_pos hname, Option.some_or]
  · rw [if_neg hname, if_neg hname]

end Meanings

end Heap

/-- A call writes to scopes of its own. -/
theorem kept_call (depth : Nat) (f : Value) (arguments : List Value) (h : Heap) :
    h.Kept ((callWithin depth f arguments).start h).2 := by
  intro j hj
  have hs : h.scopes[j]? = some h.scopes[j] := Array.getElem?_eq_getElem hj
  have horderly := recordWithin_frames depth h.next f arguments [] h
  obtain ⟨s', hs', -, hsame⟩ := horderly.keeps hs
  rw [recordWithin_follows depth f arguments h, hs', hs, hsame (Nat.ne_of_lt hj)]

section Rules

variable {call : Caller} {scope : ScopeId} {h middle after : Heap} {v w : Value}

theorem Value.unwrapped_of_isError (hv : v.isError = true) : v.unwrapped = v := by
  cases v with
  | error message => rfl
  | _ => cases hv

/-- What does not fail goes on with its value. -/
theorem Eval.start_unlessError {x : Eval Value} {go : Value → Eval Value}
    (hx : x.start h = (.ok v, middle)) (hv : v.isError = false) :
    (unlessError x go).start h = (go v).start middle := by
  rw [unlessError, start_bind, hx]
  simp only [hv, if_neg Bool.false_ne_true]

namespace Expr

variable {e left right callee condition subscript : Expr} {es : List Expr}

theorem start_ident {text : String} (hv : h.resolve scope text = some v) :
    ((Expr.ident text).eval call scope).start h = (.ok v, h) := by
  have hget : (get : Eval Heap).start h = (.ok h, h) := rfl
  show (Eval.name scope text).start h = _
  rw [Eval.name, Eval.start_bind, hget]
  simp only [hv, Eval.start_pure]

theorem start_integer (n : Int) : ((Expr.integer n).eval call scope).start h = (.ok (.integer n), h) :=
  rfl

theorem start_binary {op : String} (hleft : (left.eval call scope).start h = (.ok v, middle))
    (hv : v.isError = false) (hright : (right.eval call scope).start middle = (.ok w, after))
    (hw : w.isError = false) :
    ((Expr.binary left op right).eval call scope).start h = (.ok (applyBinary op v w), after) := by
  show (Eval.unlessError (left.eval call scope) _).start h = _
  rw [Eval.start_unlessError hleft hv, Eval.start_unlessError hright hw, Eval.start_pure]

theorem start_index (hleft : (left.eval call scope).start h = (.ok v, middle))
    (hv : v.isError = false) (hsubscript : (subscript.eval call scope).start middle = (.ok w, after))
    (hw : w.isError = false) :
    ((Expr.index left subscript).eval call scope).start h = (.ok (applyIndex v w), after) := by
  show (Eval.unlessError (left.eval call scope) _).start h = _
  rw [Eval.start_unlessError hleft hv, Eval.start_unlessError hsubscript hw, Eval.start_pure]

theorem start_conditional {consequence : Block} {alternative : Option Block}
    (hcondition : (condition.eval call scope).start h = (.ok v, middle)) (hv : v.isError = false) :
    ((Expr.conditional condition consequence alternative).eval call scope).start h =
      if v.truthy = true then (Stmt.evalAll call scope .null consequence).start middle
      else
        match alternative with
        | none => (.ok .null, middle)
        | some block => (Stmt.evalAll call scope .null block).start middle := by
  cases alternative with
  | none =>
      show (Eval.unlessError (condition.eval call scope) _).start h = _
      rw [Eval.start_unlessError hcondition hv]
      by_cases ht : v.truthy = true
      · rw [if_pos ht, if_pos ht]
      · rw [if_neg ht, if_neg ht]
        rfl
  | some block =>
      show (Eval.unlessError (condition.eval call scope) _).start h = _
      rw [Eval.start_unlessError hcondition hv]
      by_cases ht : v.truthy = true
      · rw [if_pos ht, if_pos ht]
      · rw [if_neg ht, if_neg ht]

theorem start_function (parameters : List String) (body : Block) :
    ((Expr.function parameters body).eval call scope).start h =
      (.ok (.function ⟨h.serial, parameters, body, scope⟩), h.counted) :=
  rfl

theorem startAll_nil : (Expr.evalAll call scope []).start h = (.ok (.ok []), h) :=
  rfl

theorem startAll_cons (he : (e.eval call scope).start h = (.ok v, middle)) (hv : v.isError = false) :
    (Expr.evalAll call scope (e :: es)).start h =
      match (Expr.evalAll call scope es).start middle with
      | (.error cause, after) => (.error cause, after)
      | (.ok result, after) => (.ok (result.map (v :: ·)), after) := by
  show (e.eval call scope >>= _).start h = _
  rw [Eval.start_bind, he]
  simp only [hv, if_neg Bool.false_ne_true, Eval.start_bind]
  generalize (Expr.evalAll call scope es).start middle = result
  obtain ⟨outcome, after⟩ := result
  cases outcome with
  | error cause => rfl
  | ok result =>
      cases result with
      | error w => rfl
      | ok vs => rfl

theorem startAll_singleton (e : Expr) :
    (Expr.evalAll call scope [e]).start h =
      match (e.eval call scope).start h with
      | (.error cause, after) => (.error cause, after)
      | (.ok v, after) => (.ok (if v.isError = true then .error v else .ok [v]), after) := by
  show (e.eval call scope >>= _).start h = _
  rw [Eval.start_bind]
  generalize (e.eval call scope).start h = result
  obtain ⟨outcome, after⟩ := result
  cases outcome with
  | error cause => rfl
  | ok v =>
      simp only
      by_cases hv : v.isError = true
      · rw [if_pos hv, if_pos hv, Eval.start_pure]
      · rw [if_neg hv, if_neg hv, Eval.start_bind, startAll_nil]
        rfl

theorem start_array {vs : List Value}
    (hes : (Expr.evalAll call scope es).start h = (.ok (.ok vs), after)) :
    ((Expr.array es).eval call scope).start h = (.ok (.array vs), after) := by
  show (Expr.evalAll call scope es >>= _).start h = _
  rw [Eval.start_bind, hes]
  rfl

theorem start_call (hcallee : (callee.eval call scope).start h = (.ok v, middle))
    (hv : v.isError = false) :
    ((Expr.call callee es).eval call scope).start h =
      match (Expr.evalAll call scope es).start middle with
      | (.error cause, after) => (.error cause, after)
      | (.ok (.error w), after) => (.ok w, after)
      | (.ok (.ok vs), after) => (call v vs).start after := by
  show (Eval.unlessError (callee.eval call scope) _).start h = _
  rw [Eval.start_unlessError hcallee hv, Eval.start_bind]
  generalize (Expr.evalAll call scope es).start middle = result
  obtain ⟨outcome, after⟩ := result
  cases outcome with
  | error cause => rfl
  | ok result =>
      cases result with
      | error w => rfl
      | ok vs => rfl

end Expr

/-- An expression that is the only statement. -/
theorem Stmt.startAll_expr (e : Expr) (last : Value) :
    (Stmt.evalAll call scope last [.expr e]).start h = (e.eval call scope).start h := by
  show (e.eval call scope >>= _).start h = _
  rw [Eval.start_bind]
  generalize (e.eval call scope).start h = result
  obtain ⟨outcome, after⟩ := result
  cases outcome with
  | error cause => rfl
  | ok v =>
      by_cases hstops : v.stops = true
      · simp only [if_pos hstops, Eval.start_pure]
      · simp only [if_neg hstops]
        rfl

/-- A binding before other statements. -/
theorem Stmt.startAll_bind {text : String} {value : Expr} {rest : List Stmt} (last : Value)
    (hvalue : (value.eval call scope).start h = (.ok v, middle)) (hv : v.stops = false) :
    (Stmt.evalAll call scope last (.bind text value :: rest)).start h =
      (Stmt.evalAll call scope v rest).start (middle.bind scope text v) := by
  have herror : v.isError = false := by
    cases v with
    | error message => cases hv
    | _ => rfl
  have hbind : ((Stmt.bind text value).eval call scope).start h =
      (.ok v, middle.bind scope text v) := by
    show (Eval.unlessError (value.eval call scope) _).start h = _
    rw [Eval.start_unlessError hvalue herror]
    rfl
  show ((Stmt.bind text value).eval call scope >>= _).start h = _
  rw [Eval.start_bind, hbind]
  simp only [hv, if_neg Bool.false_ne_true]

/-- In a new scope that nothing encloses, a function is bound first: then its name means it, and the names of
the built-in functions mean those. -/
theorem Stmt.startAll_bind_function (call : Caller) (h : Heap) (text : String)
    (parameters : List String) (body : Block) (rest : List Stmt) (last : Value) :
    let f : Value := .function ⟨h.serial, parameters, body, h.next⟩
    ∃ after, h.next < after.next ∧
      (∀ name, after.resolve h.next name =
        if text = name then some f else (Registry.default.get? name).map .builtin) ∧
      (Stmt.evalAll call h.next last (.bind text (.function parameters body) :: rest)).start
        (h.addRoot .default) = (Stmt.evalAll call h.next f rest).start after := by
  intro f
  have hmake : ((Expr.function parameters body).eval call h.next).start (h.addRoot .default) =
      (.ok f, (h.addRoot .default).counted) := Expr.start_function parameters body
  have hroot : h.next < (h.addRoot .default).next := h.next_lt_add _
  have hcounted : h.next < (h.addRoot .default).counted.next := hroot
  refine ⟨(h.addRoot .default).counted.bind h.next text f, ?_, fun name => ?_,
    Stmt.startAll_bind last hmake rfl⟩
  · rw [Heap.next_bind]
    exact hcounted
  · rw [Heap.resolve_bind hcounted, (h.addRoot .default).kept_counted.resolve hroot,
      Heap.resolve_addRoot]

/-- A function runs its body in a new scope. -/
theorem start_callWithin_function (depth : Nat) (f : Closure) (arguments : List Value) :
    ((callWithin (depth + 1) (.function f) arguments).start h).1 =
      ((Stmt.evalAll (callWithin depth) h.next .null f.body).start
        (h.addInside f.scope (bindParameters [] f.parameters arguments))).1.map Value.unwrapped := by
  have henter : (Eval.enter f arguments).start h =
      (.ok h.next, h.addInside f.scope (bindParameters [] f.parameters arguments)) := rfl
  show ((Eval.enter f arguments >>= _).start h).1 = _
  rw [Eval.start_bind, henter]
  simp only [Eval.start_bind, Eval.start_pure]
  generalize (Stmt.evalAll (callWithin depth) h.next .null f.body).start _ = result
  obtain ⟨outcome, after⟩ := result
  cases outcome with
  | error cause => rfl
  | ok v => rfl

theorem start_callWithin_builtin (depth : Nat) (b : Builtin) (arguments : List Value) :
    (callWithin depth (.builtin b) arguments).start h = (.ok (b.call arguments), h) := by
  cases depth with
  | zero => rfl
  | succ depth => rfl

/-- What a program comes to where a limit allows so many calls to nest, or that it fails for depth. -/
theorem outcome_runProgramWithin {settings : Settings} {limit : Int}
    (hlimit : settings.limitInForce = .ok limit) (depth : Int → Nat) (scope : ScopeId) (p : Program)
    (h : Heap) :
    (runProgramWithin depth settings scope p h).1 =
      match ((Stmt.evalAll (callWithin (depth limit)) scope .null p.statements).start h).1 with
      | .error .callsTooDeep => .error .tooDeep
      | .ok v => .ok v.unwrapped := by
  simp only [runProgramWithin, evaluateWithin, hlimit, Node.eval, Program.eval, Eval.start_bind,
    Eval.start_pure]
  generalize (Stmt.evalAll (callWithin (depth limit)) scope .null p.statements).start h = result
  obtain ⟨outcome, after⟩ := result
  cases outcome with
  | error cause =>
      cases cause
      rfl
  | ok v => rfl

/-- What a program comes to, or that it fails for depth. -/
theorem outcome_runProgram {settings : Settings} {limit : Int}
    (hlimit : settings.limitInForce = .ok limit) (scope : ScopeId) (p : Program) (h : Heap) :
    (runProgram settings scope p h).1 =
      match ((Stmt.evalAll (callWithin (callDepth limit)) scope .null p.statements).start h).1 with
      | .error .callsTooDeep => .error .tooDeep
      | .ok v => .ok v.unwrapped :=
  outcome_runProgramWithin hlimit callDepth scope p h

end Rules

end Scriptlet
