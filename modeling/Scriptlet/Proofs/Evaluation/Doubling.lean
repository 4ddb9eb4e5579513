import Scriptlet.Proofs.Evaluation.Depth
import Scriptlet.Proofs.Evaluation.Mapping
import Scriptlet.Proofs.Parser.Climbing
import Scriptlet.Proofs.Parser.Layout
import Scriptlet.Proofs.Parser.RoundTrip

/-!
# A program that computes its function

A source text with a list of numbers in it, from its characters to its result.  It defines a function that
maps another one over an array, and maps one that doubles its argument over the array of the numbers.

**Reading.**  The text in front of the numbers is always the same.  What comes after it is put together from
the numbers, which may be any, and so it is read part by part.

**Running.**  `Mapping` tells what the function that maps comes to, given what the function that is mapped
comes to.  Doubling a number of the language either stays in range or overflows, and the first overflow is
the result of the whole.

**Depth.**  There is one call for each number and two more, or fewer if a number overflows.

**Results.**
* `parse_doublingSource`: what the text is read as.
* `mapped_doubling`: what mapping comes to.
* `doubling_program_doubles`: what the program comes to, for all lists of numbers and all limits on depth.
-/

namespace Scriptlet

open Scriptlet.Parser Scriptlet.Mapping

/-- The body of the function that doubles. -/
def doubleBody : Block :=
  [.expr (.binary (.ident "x") "*" (.integer 2))]

/-- The function that doubles, as it is made in a scope. -/
def doubleIn (scope : ScopeId) (serial : Nat) : Closure :=
  ⟨serial, ["x"], doubleBody, scope⟩

/-- What the function that doubles comes to. -/
def doubling : Nat → Value → Except Halt Value
  | 0, _ => .error .callsTooDeep
  | _ + 1, v => .ok (applyBinary "*" v (.integer 2))

/-- How many calls of the loop nest, calls of the function that doubles included. -/
def loopDepth : List Int → Nat
  | [] => 1
  | x :: xs => if x * 2 ≤ maxInteger then loopDepth xs + 1 else 2

/-- The array of the doubled numbers, or an error if one of them is too great. -/
def doubles (xs : List Int) : Value :=
  if ∀ x ∈ xs, x * 2 ≤ maxInteger then .array (xs.map fun x => .integer (x * 2))
  else .error "integer overflow"

section Doubling

variable {h : Heap} {root : ScopeId} {x : Int} {xs : List Int}

theorem applyBinary_double (hx : 0 ≤ x) :
    applyBinary "*" (.integer x) (.integer 2) =
      if x * 2 ≤ maxInteger then .integer (x * 2) else .error "integer overflow" := by
  have hrange : inRange (x * 2) = true ↔ x * 2 ≤ maxInteger := by
    rw [inRange_iff]
    unfold minInteger
    omega
  rw [applyBinary, applyInteger, checked_eq]
  simp only [hrange]

theorem computes_doubling (hroot : root < h.next) (serial : Nat) (hxs : ∀ x ∈ xs, 0 ≤ x) :
    Computes h (.function (doubleIn root serial)) (xs.map .integer) doubling := by
  intro depth v hv h' hk
  obtain ⟨x, hx, rfl⟩ := List.mem_map.mp hv
  cases depth with
  | zero => rfl
  | succ depth =>
      have hroot' : root < h'.next := Nat.lt_of_lt_of_le hroot hk.next_le
      have hmeans : (h'.addInside root [("x", .integer x)]).resolve h'.next "x" = some (.integer x) :=
        Heap.resolve_addInside hroot' _ "x"
      rw [start_callWithin_function]
      show ((Stmt.evalAll (callWithin depth) h'.next .null doubleBody).start
        (h'.addInside root [("x", .integer x)])).1.map _ = _
      rw [doubleBody, Stmt.startAll_expr,
        Expr.start_binary (Expr.start_ident hmeans) rfl (Expr.start_integer 2) rfl, doubling,
        applyBinary_double (hxs x hx)]
      by_cases hle : x * 2 ≤ maxInteger
      · simp only [if_pos hle, Except.map, Value.unwrapped]
      · simp only [if_neg hle, Except.map, Value.unwrapped]

theorem loopDepth_pos (xs : List Int) : 0 < loopDepth xs := by
  cases xs with
  | nil => decide
  | cons x xs =>
      rw [loopDepth]
      split <;> omega

theorem loopDepth_le (xs : List Int) : loopDepth xs ≤ xs.length + 1 := by
  induction xs with
  | nil => decide
  | cons x xs ih =>
      rw [loopDepth, List.length_cons]
      split <;> omega

/-- What mapping the function that doubles comes to: the depth decides whether, and the numbers what. -/
theorem mapped_doubling (depth : Nat) (done : List Value) (hxs : ∀ x ∈ xs, 0 ≤ x) :
    mapped doubling depth done (xs.map .integer) =
      if depth < loopDepth xs then .error .callsTooDeep
      else
        .ok (if ∀ x ∈ xs, x * 2 ≤ maxInteger then .array (done ++ xs.map fun x => .integer (x * 2))
          else .error "integer overflow") := by
  induction xs generalizing depth done with
  | nil =>
      cases depth with
      | zero => rfl
      | succ depth => simp [mapped, loopDepth]
  | cons x xs ih =>
      have hpos := loopDepth_pos xs
      rw [List.forall_mem_cons] at hxs
      cases depth with
      | zero => rw [mapped, if_pos (loopDepth_pos _)]
      | succ depth =>
          rw [List.map_cons, mapped, loopDepth]
          cases depth with
          | zero =>
              rw [doubling, if_pos]
              split <;> omega
          | succ depth =>
              rw [doubling, applyBinary_double hxs.1]
              simp only [List.forall_mem_cons]
              by_cases hle : x * 2 ≤ maxInteger
              · simp only [hle, if_true, Value.isError, Bool.false_eq_true, if_false, true_and,
                  ih (depth + 1) _ hxs.2, List.append_assoc, List.singleton_append, List.map_cons,
                  Nat.add_lt_add_iff_right]
              · simp only [hle, if_false, Value.isError, if_true, false_and]
                rw [if_neg (by omega)]

end Doubling

section Reading

/-- The text in front of the call that maps. -/
def mapSource : String :=
  "let map = fn(arr, f) \x7b let iter = fn(i, acc) \x7b if (i == len(arr)) \x7b acc \x7d else \x7b " ++
    "iter(i + 1, push(acc, f(arr[i]))) \x7d \x7d; iter(0, []); \x7d; "

/-- The text of the program. -/
def doublingSource (xs : List Int) : String :=
  mapSource ++ "map([" ++ commaSeparated (xs.map toString) ++ "], fn(x) \x7b x * 2 \x7d)"

/-- The call that maps. -/
def mapCall (xs : List Int) : Expr :=
  .call (.ident "map") [.array (xs.map .integer), .function ["x"] doubleBody]

-- The next two give the reader the characters of a text at once: to work them out from the bytes of the
-- text takes the kernel much longer than to read them.
theorem ofString_characters (cs ds : List Char) :
    Scanner.ofString (.ofList cs ++ .ofList ds) = ⟨[], cs ++ ds, .start⟩ := by
  rw [Scanner.ofString, String.toList_append, String.toList_ofList, String.toList_ofList]

theorem parse_characters (cs ds : List Char) :
    parse (.ofList cs ++ .ofList ds) =
      (program.run (.reading ⟨[], cs ++ ds, .start⟩ [])).map fun r => ⟨r.1, r.2.errors⟩ := by
  rw [parse_eq, ofString_characters]

theorem parse_mapSource :
    parse mapSource = .ok ⟨⟨[.bind "map" (.function ["arr", "f"] mapBody)]⟩, []⟩ := by
  refine eq_ok_of_toOption ?_
  unfold mapSource
  rw [parse_characters]
  decide +kernel

theorem openDepth_mapSource : openDepth mapSource = 0 := by
  unfold openDepth tokenize mapSource
  rw [ofString_characters]
  decide +kernel

theorem endsInSemicolon_mapSource : endsInSemicolon mapSource.toList = true := by
  unfold mapSource
  rw [String.toList_append, String.toList_ofList, String.toList_ofList]
  decide +kernel

theorem legible_double (n : Nat) :
    Legible (n + 5) (.expression (.function ["x"] doubleBody)) "fn(x) \x7b x * 2 \x7d" := by
  let c : Chain := .more (.stem (.atom (.ident "x" rfl))) "*" (by decide)
    (.last (.stem (.atom (.integer 2 "2" (by decide) (by decide)))))
  have hchain : Whole (n + 4) c.tree (c.lexemes.map wordOf) :=
    whole_of_spans (spans_chain c) (Nat.le_add_left 4 n)
  have hx : Spells "x" [wordOf "x"] := spells_name rfl
  have htwo : Spells "2" [wordOf "2"] := spells_digits (by decide) rfl
  have htimes : Marks " * " [wordOf "*"] := marks_of_symbols rfl (by decide)
  have hopening : Marks ") \x7b " [⟨.rparen, ")"⟩, ⟨.lbrace, "\x7b"⟩] :=
    marks_of_symbols rfl (by decide)
  have hclosing : Marks " \x7d" [⟨.rbrace, "\x7d"⟩] := marks_of_symbols rfl (by decide)
  have hparameters := (sealed_fn.append_spells hx).append_marks hopening
  have hwhole := (hparameters.append_spells ((hx.append_marks htimes).append_spells htwo)).append_marks
    hclosing
  have htext : "fn(" ++ "x" ++ ") \x7b " ++ ("x" ++ " * " ++ "2") ++ " \x7d" =
      "fn(x) \x7b x * 2 \x7d" := by decide
  rw [htext] at hwhole
  have hnames : ["x"].all isName = true := by decide
  exact ⟨_, hwhole.spells, understood_function (understood_lastStatement hchain) fun _ =>
    reads_parameterNames hnames⟩

theorem legible_integers (n : Nat) : (xs : List Int) → (∀ x ∈ xs, 0 ≤ x ∧ x ≤ maxInteger) →
    Legible n (.expressions (xs.map .integer)) (commaSeparated (xs.map toString))
  | [], _ => legible_noExpressions
  | [x], hxs => by
      have hx : (Expr.integer x).wellFormed = true := by
        simpa [Expr.wellFormed] using hxs x List.mem_cons_self
      exact legible_lastExpression (legible_integer hx)
  | x :: y :: xs, hxs => by
      rw [List.forall_mem_cons] at hxs
      have hx : (Expr.integer x).wellFormed = true := by simpa [Expr.wellFormed] using hxs.1
      exact legible_moreExpressions (legible_integer hx) (legible_integers n (y :: xs) hxs.2)

theorem parse_doublingSource {xs : List Int} (hxs : ∀ x ∈ xs, 0 ≤ x ∧ x ≤ maxInteger) :
    parse (doublingSource xs) =
      .ok ⟨⟨[.bind "map" (.function ["arr", "f"] mapBody), .expr (mapCall xs)]⟩, []⟩ := by
  have hmap : Legible 6 (.expression (.ident "map")) "map" :=
    legible_of_writes (by decide) .ident (spells_name (by decide))
  have hitems := legible_array (legible_integers 4 xs hxs)
  have hcall := legible_call hmap
    (legible_moreExpressions hitems (legible_lastExpression (legible_double 0)))
  have htext : "map" ++ "(" ++ ("[" ++ commaSeparated (xs.map toString) ++ "]" ++ ", " ++
      "fn(x) \x7b x * 2 \x7d") ++ ")" =
        "map([" ++ commaSeparated (xs.map toString) ++ "], fn(x) \x7b x * 2 \x7d)" := by
    have hfront : "map([" = "map" ++ "(" ++ "[" := by decide
    have hback : "], fn(x) \x7b x * 2 \x7d)" = "]" ++ ", " ++ "fn(x) \x7b x * 2 \x7d" ++ ")" := by decide
    rw [hfront, hback]
    simp only [String.append_assoc]
  rw [htext] at hcall
  have hparse := (parse_of_reads_within (reads_of_legible (p := ⟨[.expr (mapCall xs)]⟩)
    (legible_lastStatement hcall))).2 (by decide)
  rw [doublingSource, String.append_assoc, String.append_assoc,
    parse_append parse_mapSource openDepth_mapSource endsInSemicolon_mapSource, ← String.append_assoc,
    hparse]
  rfl

end Reading

section Running

variable {settings : Settings} {limit : Int} {h : Heap} {xs : List Int}

/-- A limit that is in force is far below the greatest integer. -/
theorem callDepth_le_maxInteger (hlimit : settings.limitInForce = .ok limit) :
    (callDepth limit : Int) ≤ maxInteger := by
  have hle : limit ≤ greatestLimit := by
    rw [Settings.limitInForce] at hlimit
    cases hset : settings.limit with
    | error fault =>
        rw [hset] at hlimit
        cases hlimit
    | ok n =>
        rw [hset] at hlimit
        have heffective : effectiveLimit n = .ok limit := hlimit
        rw [effectiveLimit] at heffective
        split at heffective
        · cases heffective
        · cases heffective
          have hbase : baseLimit ≤ greatestLimit := by decide
          omega
  have hdiv : callDepth limit ≤ limit.toNat := Nat.div_le_self _ _
  unfold greatestLimit at hle
  unfold maxInteger
  omega

theorem startAll_integers (call : Caller) (scope : ScopeId) (xs : List Int) :
    (Expr.evalAll call scope (xs.map .integer)).start h = (.ok (.ok (xs.map .integer)), h) := by
  induction xs with
  | nil => exact Expr.startAll_nil
  | cons x xs ih =>
      rw [List.map_cons, Expr.startAll_cons (Expr.start_integer x) rfl, ih]
      rfl

theorem unwrapped_doubles (xs : List Int) : (doubles xs).unwrapped = doubles xs := by
  rw [doubles]
  split <;> rfl

/-- The call that maps, in a scope that knows the built-in functions and the function that maps. -/
theorem start_mapCall {root : ScopeId} {serial : Nat} (depth : Nat) (hroot : root < h.next)
    (hmap : h.resolve root "map" = some (.function (mapIn root serial)))
    (hlen : h.resolve root "len" = some (.builtin .len))
    (hpush : h.resolve root "push" = some (.builtin .push)) (hxs : ∀ x ∈ xs, 0 ≤ x)
    (hdepth : (depth : Int) ≤ maxInteger) :
    (((mapCall xs).eval (callWithin depth) root).start h).1 =
      if depth < loopDepth xs + 1 then .error .callsTooDeep else .ok (doubles xs) := by
  have hmake : ((Expr.function ["x"] doubleBody).eval (callWithin depth) root).start h =
      (.ok (.function (doubleIn root h.serial)), h.counted) :=
    Expr.start_function ["x"] doubleBody
  have hsame := h.kept_counted
  rw [mapCall, Expr.start_call (Expr.start_ident hmap) rfl,
    Expr.startAll_cons (Expr.start_array (startAll_integers _ _ xs)) rfl, Expr.startAll_singleton, hmake]
  simp only [Value.isError, Bool.false_eq_true, if_false, Except.map]
  cases depth with
  | zero => rfl
  | succ depth =>
      have hcomputes := (computes_doubling hroot h.serial hxs).kept hsame
      have hroot' : root < h.counted.next := hroot
      have hlen' : h.counted.resolve root "len" = some (.builtin .len) := by
        rw [hsame.resolve hroot, hlen]
      have hpush' : h.counted.resolve root "push" = some (.builtin .push) := by
        rw [hsame.resolve hroot, hpush]
      have hitems : ∀ v ∈ xs.map Value.integer, v.isError = false := by simp [Value.isError]
      rw [start_map depth serial hroot' hlen' hpush' rfl hitems hcomputes (by omega),
        mapped_doubling depth [] hxs]
      simp only [Nat.add_lt_add_iff_right, List.nil_append, doubles]

/-- The two statements of the program, in a new scope that nothing encloses. -/
theorem startAll_doubling (depth : Nat) (hxs : ∀ x ∈ xs, 0 ≤ x) (hdepth : (depth : Int) ≤ maxInteger)
    (h : Heap) :
    ((Stmt.evalAll (callWithin depth) h.next .null
      [.bind "map" (.function ["arr", "f"] mapBody), .expr (mapCall xs)]).start (h.addRoot .default)).1 =
      if depth < loopDepth xs + 1 then .error .callsTooDeep else .ok (doubles xs) := by
  obtain ⟨after, hroot, hmeans, hstart⟩ := Stmt.startAll_bind_function (callWithin depth) h "map"
    ["arr", "f"] mapBody [.expr (mapCall xs)] .null
  rw [hstart, Stmt.startAll_expr]
  exact start_mapCall depth hroot (hmeans "map") (hmeans "len") (hmeans "push") hxs hdepth

end Running

/-- For every list of numbers of the language, from zero to the greatest, and whatever limit on depth is in
force, the program that maps the function that doubles over them comes to the array of the doubled numbers in
order, or to the error of an overflow if one of them is too great.  Otherwise the run fails for depth; it does
not if the limit leaves room for two calls more than there are numbers.  Where no limit can be put in force,
the run says so. -/
theorem doubling_program_doubles (settings : Settings) {xs : List Int}
    (hxs : ∀ x ∈ xs, 0 ≤ x ∧ x ≤ maxInteger) (h : Heap) :
    (∀ limit, settings.limitInForce = .ok limit →
      (runFresh settings (doublingSource xs) h).1 = .ok (doubles xs) ∨
        (runFresh settings (doublingSource xs) h).1 = .error .tooDeep ∧
          callDepth limit < xs.length + 2) ∧
    (∀ fault, settings.limitInForce = .error fault →
      (runFresh settings (doublingSource xs) h).1 = .error (.badLimit fault)) := by
  have hread : runFresh settings (doublingSource xs) h = runProgram settings h.next
      ⟨[.bind "map" (.function ["arr", "f"] mapBody), .expr (mapCall xs)]⟩ (h.addRoot .default) := by
    rw [runFresh, run, runWithin, parse_doublingSource hxs]
    exact if_pos rfl
  rw [hread]
  constructor
  · intro limit hlimit
    have hpositive : ∀ x ∈ xs, 0 ≤ x := fun x hx => (hxs x hx).1
    have hbody := startAll_doubling (callDepth limit) hpositive (callDepth_le_maxInteger hlimit) h
    rw [outcome_runProgram hlimit, hbody]
    by_cases hdepth : callDepth limit < loopDepth xs + 1
    · right
      have hlength := loopDepth_le xs
      rw [if_pos hdepth]
      exact ⟨rfl, by omega⟩
    · left
      rw [if_neg hdepth]
      exact congrArg Except.ok (unwrapped_doubles xs)
  · intro fault hfault
    rw [runProgram, evaluate, evaluateWithin, hfault]

/-- Two lists that differ in one number, the greatest that can be doubled and the least that cannot. -/
theorem doubling_program_doubles_greatest :
    let good : List Int := [3, 0x3FFFFFFFFFFFFFFF, 0]
    let bad : List Int := [3, 0x4000000000000000, 0]
    (∀ x ∈ good ++ bad, 0 ≤ x ∧ x ≤ maxInteger) ∧
      (runFresh .unset (doublingSource good) .empty).1 =
        .ok (.array [.integer 6, .integer (maxInteger - 1), .integer 0]) ∧
      (runFresh .unset (doublingSource bad) .empty).1 = .ok (.error "integer overflow") := by
  intro good bad
  have hlimit : Settings.unset.limitInForce = .ok defaultLimit := rfl
  have hrange : ∀ x ∈ good ++ bad, 0 ≤ x ∧ x ≤ maxInteger := by decide
  rw [List.forall_mem_append] at hrange
  refine ⟨List.forall_mem_append.mpr hrange, ?_, ?_⟩
  · rcases (doubling_program_doubles .unset hrange.1 .empty).1 _ hlimit with hgood | ⟨-, hdepth⟩
    · rw [hgood, doubles, if_pos (by decide)]
      rfl
    · exact absurd hdepth (by decide)
  · rcases (doubling_program_doubles .unset hrange.2 .empty).1 _ hlimit with hbad | ⟨-, hdepth⟩
    · rw [hbad, doubles, if_neg (by decide)]
    · exact absurd hdepth (by decide)

end Scriptlet
