import Scriptlet.Proofs.Evaluation.Arithmetic
import Scriptlet.Proofs.Evaluation.Rules

/-!
# A loop in the language

A function of the language that maps another one over an array.  It has no loops of its own to do so: it
makes a function that calls itself, once for each item and once more at the end.

**The loop.**  It counts the items it is done with and hands on the values they were mapped to.  It finds
the array and the function that is mapped in the scope around its own, and itself there, too; the built-in
functions it uses lie behind two scopes.

**The invariant.**  `Loops h scope items f loop`: from the scope, the names that a round uses mean what they
should.  Every call keeps it, since a call writes to scopes of its own.

**Depth.**  A round is one call deeper than the one before it.  So mapping can stop for good, either at a
round or where a function is called with an item.

**Results.**
* `mapped`: what mapping comes to, by recursion on the depth that is left.
* `Loops.start_loop`: what the loop comes to from any round on.
* `start_map`: what mapping comes to.
-/

namespace Scriptlet

namespace Mapping

/-- The first phrase of a round: whether all items are done. -/
def roundTest : Expr :=
  .binary (.ident "i") "==" (.call (.ident "len") [.ident "arr"])

/-- The value of the item at hand. -/
def roundItem : Expr :=
  .call (.ident "f") [.index (.ident "arr") (.ident "i")]

/-- The next round. -/
def roundNext : Expr :=
  .call (.ident "iter")
    [.binary (.ident "i") "+" (.integer 1), .call (.ident "push") [.ident "acc", roundItem]]

/-- The body of the loop. -/
def loopBody : Block :=
  [.expr (.conditional roundTest [.expr (.ident "acc")] (some [.expr roundNext]))]

/-- The loop, as it is made in a scope. -/
def loopIn (scope : ScopeId) (serial : Nat) : Closure :=
  ⟨serial, ["i", "acc"], loopBody, scope⟩

/-- The body of the function that maps. -/
def mapBody : Block :=
  [.bind "iter" (.function ["i", "acc"] loopBody),
    .expr (.call (.ident "iter") [.integer 0, .array []])]

/-- The function that maps, as it is made in a scope. -/
def mapIn (scope : ScopeId) (serial : Nat) : Closure :=
  ⟨serial, ["arr", "f"], mapBody, scope⟩

/-- What mapping comes to, after so many values and with so many items left, if the function is known to
come to `g depth v` when it is called with `v`.  An error among the values takes the place of all. -/
def mapped (g : Nat → Value → Except Halt Value) : Nat → List Value → List Value → Except Halt Value
  | 0, _, _ => .error .callsTooDeep
  | _ + 1, done, [] => .ok (.array done)
  | depth + 1, done, v :: rest =>
      match g depth v with
      | .error cause => .error cause
      | .ok w => if w.isError then .ok w else mapped g depth (done ++ [w]) rest

/-- From the heap, and from every later one that keeps it, calls of the function with the items come to
what `g` says. -/
def Computes (h : Heap) (f : Value) (items : List Value) (g : Nat → Value → Except Halt Value) : Prop :=
  ∀ depth, ∀ v ∈ items, ∀ h', h.Kept h' → ((callWithin depth f [v]).start h').1 = g depth v

/-- From the scope, the names that a round uses mean what they should. -/
structure Loops (h : Heap) (scope : ScopeId) (items : List Value) (f : Value) (loop : Closure) :
    Prop where
  made : scope < h.next
  arr : h.resolve scope "arr" = some (.array items)
  f : h.resolve scope "f" = some f
  iter : h.resolve scope "iter" = some (.function loop)
  len : h.resolve scope "len" = some (.builtin .len)
  push : h.resolve scope "push" = some (.builtin .push)

/-- The scope is that of a round: so many items are done, with these values. -/
structure Round (h : Heap) (scope : ScopeId) (items : List Value) (f : Value) (loop : Closure)
    (i : Nat) (done : List Value) : Prop extends Loops h scope items f loop where
  i : h.resolve scope "i" = some (.integer i)
  acc : h.resolve scope "acc" = some (.array done)

section Loop

variable {h h' : Heap} {scope : ScopeId} {items done front rest : List Value} {f v w : Value}
  {loop : Closure} {g : Nat → Value → Except Halt Value} {i : Nat}

/-- Mapping never yields a returned value. -/
theorem map_unwrapped_mapped (g : Nat → Value → Except Halt Value) (depth : Nat)
    (done rest : List Value) :
    (mapped g depth done rest).map Value.unwrapped = mapped g depth done rest := by
  induction depth generalizing done rest with
  | zero => rfl
  | succ depth ih =>
      cases rest with
      | nil => rfl
      | cons v rest =>
          rw [mapped]
          cases g depth v with
          | error cause => rfl
          | ok w =>
              by_cases hw : w.isError = true
              · simp only [if_pos hw, Except.map, Value.unwrapped_of_isError hw]
              · simp only [if_neg hw]
                exact ih (done ++ [w]) rest

theorem Computes.kept (hf : Computes h f items g) (hk : h.Kept h') : Computes h' f items g :=
  fun depth v hv _ hk' => hf depth v hv _ (hk.trans hk')

theorem Loops.kept (hl : Loops h scope items f loop) (hk : h.Kept h') : Loops h' scope items f loop where
  made := Nat.lt_of_lt_of_le hl.made hk.next_le
  arr := by rw [hk.resolve hl.made, hl.arr]
  f := by rw [hk.resolve hl.made, hl.f]
  iter := by rw [hk.resolve hl.made, hl.iter]
  len := by rw [hk.resolve hl.made, hl.len]
  push := by rw [hk.resolve hl.made, hl.push]

/-- A call of the loop makes the scope of a round. -/
theorem Loops.round (hl : Loops h scope items f loop) (i : Nat) (done : List Value) :
    Round (h.addInside scope [("i", .integer i), ("acc", .array done)]) h.next items f loop i done := by
  have hmeans := Heap.resolve_addInside hl.made [("i", .integer i), ("acc", .array done)]
  refine ⟨⟨?_, ?_, ?_, ?_, ?_, ?_⟩, ?_, ?_⟩
  · exact h.next_lt_add _
  · exact (hmeans "arr").trans hl.arr
  · exact (hmeans "f").trans hl.f
  · exact (hmeans "iter").trans hl.iter
  · exact (hmeans "len").trans hl.len
  · exact (hmeans "push").trans hl.push
  · exact hmeans "i"
  · exact hmeans "acc"

section Rounds

variable (hr : Round h scope items f loop i done) (depth : Nat)
include hr

theorem Round.start_test :
    (roundTest.eval (callWithin depth) scope).start h = (.ok (.boolean (i = items.length)), h) := by
  have hlength : ((Expr.call (.ident "len") [.ident "arr"]).eval (callWithin depth) scope).start h =
      (.ok (.integer items.length), h) := by
    rw [Expr.start_call (Expr.start_ident hr.len) rfl, Expr.startAll_singleton,
      Expr.start_ident hr.arr]
    exact start_callWithin_builtin depth .len [.array items]
  have hequal : applyBinary "==" (.integer i) (.integer items.length) =
      .boolean (i = items.length) := by
    simp only [applyBinary, applyInteger, Int.natCast_inj]
  rw [roundTest, Expr.start_binary (Expr.start_ident hr.i) rfl hlength rfl, hequal]

/-- The item at hand is handed to the function. -/
theorem Round.start_item (hf : f.isError = false) (hi : items[i]? = some v) (hv : v.isError = false) :
    (roundItem.eval (callWithin depth) scope).start h = (callWithin depth f [v]).start h := by
  have hitem : applyIndex (.array items) (.integer i) = v := by
    have hnat : ¬(i : Int) < 0 := by omega
    simp only [applyIndex, if_neg hnat, Int.toNat_natCast, List.getD_eq_getElem?_getD, hi,
      Option.getD_some]
  rw [roundItem, Expr.start_call (Expr.start_ident hr.f) hf, Expr.startAll_singleton,
    Expr.start_index (Expr.start_ident hr.arr) rfl (Expr.start_ident hr.i) rfl, hitem]
  simp only [hv, if_neg Bool.false_ne_true]

theorem Round.start_count (hi : (i : Int) + 1 ≤ maxInteger) :
    ((Expr.binary (.ident "i") "+" (.integer 1)).eval (callWithin depth) scope).start h =
      (.ok (.integer (i + 1 : Nat)), h) := by
  have hsum : applyBinary "+" (.integer i) (.integer 1) = .integer (i + 1 : Nat) := by
    have hrange : inRange ((i : Int) + 1) = true := by
      rw [inRange_iff]
      unfold minInteger maxInteger at *
      omega
    rw [applyBinary, applyInteger, checked_of_inRange hrange, Int.natCast_succ]
  rw [Expr.start_binary (Expr.start_ident hr.i) rfl (Expr.start_integer 1) rfl, hsum]

/-- The value of the item is added and the next round called, unless calling the function fails. -/
theorem Round.start_next (hi : (i : Int) + 1 ≤ maxInteger) :
    (roundNext.eval (callWithin depth) scope).start h =
      match (roundItem.eval (callWithin depth) scope).start h with
      | (.error cause, after) => (.error cause, after)
      | (.ok w, after) =>
          if w.isError = true then (.ok w, after)
          else
            (callWithin depth (.function loop)
              [.integer (i + 1 : Nat), .array (done ++ [w])]).start after := by
  have hpush : ((Expr.call (.ident "push") [.ident "acc", roundItem]).eval
      (callWithin depth) scope).start h =
        match (roundItem.eval (callWithin depth) scope).start h with
        | (.error cause, after) => (.error cause, after)
        | (.ok w, after) => (.ok (if w.isError = true then w else .array (done ++ [w])), after) := by
    rw [Expr.start_call (Expr.start_ident hr.push) rfl,
      Expr.startAll_cons (Expr.start_ident hr.acc) rfl, Expr.startAll_singleton]
    generalize (roundItem.eval (callWithin depth) scope).start h = result
    obtain ⟨outcome, after⟩ := result
    cases outcome with
    | error cause => rfl
    | ok w =>
        by_cases hw : w.isError = true
        · simp only [if_pos hw, Except.map]
        · simp only [if_neg hw, Except.map]
          exact start_callWithin_builtin depth .push [.array done, w]
  rw [roundNext, Expr.start_call (Expr.start_ident hr.iter) rfl,
    Expr.startAll_cons (hr.start_count depth hi) rfl, Expr.startAll_singleton, hpush]
  generalize (roundItem.eval (callWithin depth) scope).start h = result
  obtain ⟨outcome, after⟩ := result
  cases outcome with
  | error cause => rfl
  | ok w =>
      by_cases hw : w.isError = true
      · simp only [if_pos hw, Except.map]
      · simp only [if_neg hw]
        rfl

end Rounds

section Calls

variable {serial : Nat} (hl : Loops h scope items f (loopIn scope serial)) (depth : Nat)
include hl

/-- A call of the loop looks whether all items are done. -/
theorem Loops.start_round (i : Nat) (done : List Value) :
    ∃ inside, h.Kept inside ∧ Round inside h.next items f (loopIn scope serial) i done ∧
      ((callWithin (depth + 1) (.function (loopIn scope serial)) [.integer i, .array done]).start h).1 =
        (if i = items.length then .ok (.array done)
          else ((roundNext.eval (callWithin depth) h.next).start inside).1).map Value.unwrapped := by
  have hround := hl.round i done
  refine ⟨_, h.kept_addInside scope _, hround, ?_⟩
  rw [start_callWithin_function]
  show ((Stmt.evalAll (callWithin depth) h.next .null loopBody).start
    (h.addInside scope [("i", .integer i), ("acc", .array done)])).1.map _ = _
  rw [loopBody, Stmt.startAll_expr, Expr.start_conditional (hround.start_test depth) rfl]
  by_cases hi : i = items.length
  · have htest : (Value.boolean (i = items.length)).truthy = true := decide_eq_true hi
    rw [if_pos htest, if_pos hi, Stmt.startAll_expr, Expr.start_ident hround.acc]
  · have htest : ¬(Value.boolean (i = items.length)).truthy = true := by
      rw [Value.truthy, decide_eq_true_eq]
      exact hi
    rw [if_neg htest, if_neg hi]
    simp only [Stmt.startAll_expr]

/-- The last round yields the values. -/
theorem Loops.start_last (done : List Value) (hi : i = items.length) :
    ((callWithin (depth + 1) (.function (loopIn scope serial)) [.integer i, .array done]).start h).1 =
      .ok (.array done) := by
  obtain ⟨inside, -, -, hcall⟩ := hl.start_round depth i done
  rw [hcall, if_pos hi]
  rfl

/-- Any other round calls the function with the item at hand, and then the next round. -/
theorem Loops.start_more (done : List Value) (hf : f.isError = false) (hitem : items[i]? = some v)
    (hv : v.isError = false) (hi : (i : Int) + 1 ≤ maxInteger) :
    ∃ inside, h.Kept inside ∧
      ((callWithin (depth + 1) (.function (loopIn scope serial)) [.integer i, .array done]).start h).1 =
        match (callWithin depth f [v]).start inside with
        | (.error cause, _) => .error cause
        | (.ok w, after) =>
            if w.isError = true then .ok w
            else
              ((callWithin depth (.function (loopIn scope serial))
                [.integer (i + 1 : Nat), .array (done ++ [w])]).start after).1.map Value.unwrapped := by
  obtain ⟨inside, hkept, hround, hcall⟩ := hl.start_round depth i done
  obtain ⟨hlt, -⟩ := List.getElem?_eq_some_iff.mp hitem
  refine ⟨inside, hkept, ?_⟩
  rw [hcall, if_neg (Nat.ne_of_lt hlt), hround.start_next depth hi, hround.start_item depth hf hitem hv]
  generalize (callWithin depth f [v]).start inside = result
  obtain ⟨outcome, after⟩ := result
  cases outcome with
  | error cause => rfl
  | ok w =>
      by_cases hw : w.isError = true
      · simp only [if_pos hw, Except.map, Value.unwrapped_of_isError hw]
      · simp only [if_neg hw]

/-- What the loop comes to from any round on.  The induction is on the depth that is left: every round takes
one level, and so the count stays far below the greatest integer. -/
theorem Loops.start_loop (done : List Value) (hf : f.isError = false)
    (hitems : ∀ v ∈ items, v.isError = false) (hcomputes : Computes h f items g)
    (hsplit : items = front ++ rest) (hdepth : (front.length + depth : Nat) ≤ maxInteger) :
    ((callWithin depth (.function (loopIn scope serial)) [.integer front.length, .array done]).start
      h).1 = mapped g depth done rest := by
  induction depth generalizing h front rest done with
  | zero => rfl
  | succ depth ih =>
      cases rest with
      | nil =>
          rw [List.append_nil] at hsplit
          exact hl.start_last depth done (congrArg List.length hsplit.symm)
      | cons v rest =>
          have hitem : items[front.length]? = some v := by simp [hsplit]
          have hmem : v ∈ items := List.mem_of_getElem? hitem
          obtain ⟨inside, hkept, hround⟩ := hl.start_more depth done hf hitem
            (hitems v hmem) (by omega)
          have hcall := hcomputes depth v hmem inside hkept
          have hkept := hkept.trans (kept_call depth f [v] inside)
          rw [hround, mapped, ← hcall]
          generalize (callWithin depth f [v]).start inside = result at hkept ⊢
          obtain ⟨outcome, after⟩ := result
          cases outcome with
          | error cause => rfl
          | ok w =>
              have hnext := ih (hl.kept hkept) (done ++ [w]) (hcomputes.kept hkept)
                (hsplit.trans (List.append_cons front v rest)) (by simp; omega)
              rw [List.length_append, List.length_singleton] at hnext
              simp only [hnext, map_unwrapped_mapped]

end Calls

end Loop

section Map

variable {h : Heap} {root : ScopeId} {items : List Value} {f : Value}
  {g : Nat → Value → Except Halt Value}

/-- Where the loop is bound in the scope of a call of the function that maps, a round finds all it needs. -/
theorem loops_bind (hroot : root < h.next) (hlen : h.resolve root "len" = some (.builtin .len))
    (hpush : h.resolve root "push" = some (.builtin .push)) {inside : Heap}
    (hinside : (h.addInside root [("arr", .array items), ("f", f)]).Kept inside) (loop : Closure) :
    Loops (inside.bind h.next "iter" (.function loop)) h.next items f loop := by
  have hnew : h.next < (h.addInside root [("arr", .array items), ("f", f)]).next := h.next_lt_add _
  have hmade : h.next < inside.next := Nat.lt_of_lt_of_le hnew hinside.next_le
  have hmeans : ∀ name, "iter" ≠ name →
      (inside.bind h.next "iter" (.function loop)).resolve h.next name =
        (Table.get? name [("arr", .array items), ("f", f)]).or (h.resolve root name) := by
    intro name hname
    rw [Heap.resolve_bind hmade, if_neg hname, hinside.resolve hnew, Heap.resolve_addInside hroot]
  refine ⟨?_, hmeans "arr" (by decide), hmeans "f" (by decide), ?_, ?_, ?_⟩
  · rw [Heap.next_bind]
    exact hmade
  · rw [Heap.resolve_bind hmade, if_pos rfl]
  · exact (hmeans "len" (by decide)).trans hlen
  · exact (hmeans "push" (by decide)).trans hpush

theorem Loops.start_first {scope : ScopeId} {loop : Closure} (hl : Loops h scope items f loop)
    (depth : Nat) :
    ((Expr.call (.ident "iter") [.integer 0, .array []]).eval (callWithin depth) scope).start h =
      (callWithin depth (.function loop) [.integer 0, .array []]).start h := by
  rw [Expr.start_call (Expr.start_ident hl.iter) rfl, Expr.startAll_cons (Expr.start_integer 0) rfl,
    Expr.startAll_singleton, Expr.start_array Expr.startAll_nil]
  rfl

/-- What mapping comes to: a call of the function that maps, from any heap in which its scope knows the
built-in functions. -/
theorem start_map (depth serial : Nat) (hroot : root < h.next)
    (hlen : h.resolve root "len" = some (.builtin .len))
    (hpush : h.resolve root "push" = some (.builtin .push)) (hf : f.isError = false)
    (hitems : ∀ v ∈ items, v.isError = false) (hcomputes : Computes h f items g)
    (hdepth : (depth : Int) ≤ maxInteger) :
    ((callWithin (depth + 1) (.function (mapIn root serial)) [.array items, f]).start h).1 =
      mapped g depth [] items := by
  have hbind := @loops_bind h root items f hroot hlen hpush
  have hinside := h.kept_addInside root [("arr", .array items), ("f", f)]
  rw [start_callWithin_function]
  show ((Stmt.evalAll (callWithin depth) h.next .null mapBody).start
    (h.addInside root [("arr", .array items), ("f", f)])).1.map _ = _
  generalize h.addInside root [("arr", .array items), ("f", f)] = inside at hbind hinside ⊢
  have hmake : ((Expr.function ["i", "acc"] loopBody).eval (callWithin depth) h.next).start inside =
      (.ok (.function (loopIn h.next inside.serial)), inside.counted) :=
    Expr.start_function ["i", "acc"] loopBody
  have hkept := (hinside.trans inside.kept_counted).bind (Nat.le_refl h.next) "iter"
    (.function (loopIn h.next inside.serial))
  have hloops := hbind inside.kept_counted (loopIn h.next inside.serial)
  have hloop := hloops.start_loop depth [] hf hitems (hcomputes.kept hkept)
    (List.nil_append items).symm (by simpa using hdepth)
  rw [mapBody, Stmt.startAll_bind .null hmake rfl, Stmt.startAll_expr,
    hloops.start_first depth, ← map_unwrapped_mapped, ← hloop]
  rfl

end Map

end Mapping

end Scriptlet
