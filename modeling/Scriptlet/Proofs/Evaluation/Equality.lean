import Scriptlet.Operation
import Scriptlet.Settings
import Scriptlet.Value.Showing

/-!
# Equality of values

Which values are equal, and what the two operators say about it that compare values.

**Identity.**  A function, and what a `return` carries, has a serial number, so two that were made
separately are different values even if they look the same.  Equality is defined by comparing the contents
of arrays and errors, the names of built-in functions and the numbers of functions and returned values;
`Value.equal_iff` shows that nothing but the origin of built-in functions is lost in that.

**Room.**  A comparison goes into arrays on the stack of the host, and stops where the stack is full.  What
two values come to depends on the number of frames there are, and on nothing else of the host but the number
that every level of arrays takes.

**Operators.**  `==` and `!=` take a path of their own for two integers, and another for two strings.  An
operator `Compares` if each path comes to a test of equality, apart from that of strings, which are never
compared.

**Results.**
* `Value.equal_iff`: equal values are the same, up to built-in functions of one name.
* `Value.equalWithin_self`: a value is found to be equal to itself just if there are frames enough.
* `Compares.applyWithin_eq`, `Compares.yields_error_iff`: what an operator that compares comes to.
* `comparisons_follow_equality`: the laws of equality and of the two operators, for every number of frames.
-/

namespace Scriptlet

namespace Value

section Names

mutual

/-- A value with nothing left of its built-in functions but their names. -/
def blurred : Value → Value
  | array items => array (blurredAll items)
  | builtin f => builtin (.host f.name 0 0)
  | returned serial value => returned serial (blurred value)
  | v => v

/-- Values with nothing left of their built-in functions but the names. -/
def blurredAll : List Value → List Value
  | [] => []
  | v :: rest => blurred v :: blurredAll rest

end

mutual

/-- Values are equal if they are the same up to built-in functions of one name, at every depth of an array. -/
theorem equal_iff : (a b : Value) → (a.equal b = true ↔ a.blurred = b.blurred)
  | .null, b => by cases b <;> simp [equal, blurred]
  | .integer m, b => by cases b <;> simp [equal, blurred]
  | .boolean p, b => by cases b <;> simp [equal, blurred]
  | .string s, b => by cases b <;> simp [equal, blurred]
  | .array as, b => by cases b <;> simp [equal, blurred, equalAll_iff as]
  | .function f, b => by cases b <;> simp [equal, blurred]
  | .builtin f, b => by cases b <;> simp [equal, blurred]
  | .error s, b => by cases b <;> simp [equal, blurred]
  | .returned i a, b => by cases b <;> simp [equal, blurred, equal_iff a]

/-- Lists of values are equal if they are the same up to built-in functions of one name. -/
theorem equalAll_iff : (as bs : List Value) → (equalAll as bs = true ↔ blurredAll as = blurredAll bs)
  | [], bs => by cases bs <;> simp [equalAll, blurredAll]
  | a :: as, bs => by cases bs <;> simp [equalAll, blurredAll, equal_iff a, equalAll_iff as]

end

mutual

@[simp] theorem display_blurred : (v : Value) → v.blurred.display = v.display
  | .array items => by simp [blurred, display, displays_blurredAll items]
  | .builtin f => rfl
  | .returned serial v => by simp [blurred, display, display_blurred v]
  | .null | .integer _ | .boolean _ | .string _ | .function _ | .error _ => rfl

@[simp] theorem displays_blurredAll : (vs : List Value) → displays (blurredAll vs) = displays vs
  | [] => rfl
  | v :: rest => by simp [blurredAll, displays, display_blurred v, displays_blurredAll rest]

end

mutual

@[simp] theorem foreign?_blurred : (v : Value) → v.blurred.foreign? = v.foreign?
  | .array items => by simp [blurred, foreign?, foreignAmong?_blurredAll items]
  | .builtin f => rfl
  | .returned serial v => by simp [blurred, foreign?, foreign?_blurred v]
  | .null | .integer _ | .boolean _ | .string _ | .function _ | .error _ => rfl

@[simp] theorem foreignAmong?_blurredAll :
    (vs : List Value) → foreignAmong? (blurredAll vs) = foreignAmong? vs
  | [] => rfl
  | v :: rest => by
      simp [blurredAll, foreignAmong?, foreign?_blurred v, foreignAmong?_blurredAll rest]

end

mutual

@[simp] theorem framesToShow_blurred (cost : ShowingCost) :
    (v : Value) → v.blurred.framesToShow cost = v.framesToShow cost
  | .array items => by simp [blurred, framesToShow, framesToShowAll_blurredAll cost items]
  | .builtin f => rfl
  | .returned serial v => by simp [blurred, framesToShow, framesToShow_blurred cost v]
  | .null | .integer _ | .boolean _ | .string _ | .function _ | .error _ => rfl

@[simp] theorem framesToShowAll_blurredAll (cost : ShowingCost) :
    (vs : List Value) → framesToShowAll cost (blurredAll vs) = framesToShowAll cost vs
  | [] => rfl
  | v :: rest => by
      simp [blurredAll, framesToShowAll, framesToShow_blurred cost v, framesToShowAll_blurredAll cost rest]

end

mutual

theorem blurred_blurred : (v : Value) → v.blurred.blurred = v.blurred
  | .array items => by simp [blurred, blurredAll_blurredAll items]
  | .builtin f => rfl
  | .returned serial v => by simp [blurred, blurred_blurred v]
  | .null | .integer _ | .boolean _ | .string _ | .function _ | .error _ => rfl

theorem blurredAll_blurredAll : (vs : List Value) → blurredAll (blurredAll vs) = blurredAll vs
  | [] => rfl
  | v :: rest => by simp [blurredAll, blurred_blurred v, blurredAll_blurredAll rest]

end

theorem kind_blurred (v : Value) : v.blurred.kind = v.kind := by
  cases v <;> rfl

@[simp] theorem truthy_blurred (v : Value) : v.blurred.truthy = v.truthy := by
  cases v <;> rfl

/-- What the names of built-in functions settle is alike for equal values. -/
theorem eq_of_equal {α : Type} {f : Value → α} (hf : ∀ v, f v.blurred = f v) {a b : Value}
    (h : a.equal b = true) : f a = f b := by
  rw [← hf a, ← hf b, (equal_iff a b).mp h]

theorem render_blurred (v : Value) : v.blurred.render = v.render := by
  rw [render, render, foreign?_blurred, display_blurred]

theorem shownWithin_blurred (cost : ShowingCost) (frames : Nat) (v : Value) :
    v.blurred.shownWithin cost frames = v.shownWithin cost frames := by
  rw [shownWithin, shownWithin, framesToShow_blurred, display_blurred]

end Names

@[simp] theorem equal_self (a : Value) : a.equal a = true :=
  (equal_iff a a).mpr rfl

theorem equal_comm (a b : Value) : a.equal b = b.equal a := by
  rw [Bool.eq_iff_iff, equal_iff, equal_iff]
  exact eq_comm

section Room

mutual

/-- How many frames it takes to compare a value with one like it. -/
def framesToCompare (step : Nat) : Value → Nat
  | array items => framesToCompareAll step items + step + 1
  | _ => 1

/-- How many frames it takes to compare the one among several values that takes the most. -/
def framesToCompareAll (step : Nat) : List Value → Nat
  | [] => 0
  | v :: rest => max (framesToCompare step v) (framesToCompareAll step rest)

end

theorem one_le_framesToCompare (step : Nat) (v : Value) : 1 ≤ v.framesToCompare step := by
  cases v with
  | array items => exact Nat.succ_le_succ (Nat.zero_le _)
  | _ => exact Nat.le_refl _

theorem length_blurredAll (vs : List Value) : (blurredAll vs).length = vs.length := by
  induction vs with
  | nil => rfl
  | cons v rest ih => rw [blurredAll, List.length_cons, List.length_cons, ih]

theorem equalAll_of_length_ne {as bs : List Value} (h : as.length ≠ bs.length) : equalAll as bs = false := by
  rw [Bool.eq_false_iff]
  intro hequal
  have hlength := congrArg List.length ((equalAll_iff as bs).mp hequal)
  rw [length_blurredAll, length_blurredAll] at hlength
  exact h hlength

variable {step frames : Nat} {a b : Value}

/-- Two values that are not both arrays are compared in one frame. -/
theorem equalWithin_of_plain (h : ¬(a.kind = .array ∧ b.kind = .array)) :
    a.equalWithin step frames b = (takeFrames 1 frames).map fun _ => a.equal b := by
  unfold equalWithin
  split
  · exact absurd ⟨rfl, rfl⟩ h
  · cases takeFrames 1 frames <;> rfl

theorem equalWithin_array (as bs : List Value) :
    (array as).equalWithin step frames (array bs) =
      if frames = 0 then .error .stackFull
      else if as.length ≠ bs.length then .ok false
      else if frames < step + 1 then .error .stackFull
      else equalAllWithin step (frames - (step + 1)) as bs := by
  rw [equalWithin]
  by_cases hzero : frames = 0
  · rw [if_pos hzero, takeFrames_of_lt (by omega)]
    rfl
  · rw [if_neg hzero, takeFrames_of_le (by omega)]
    by_cases hlength : as.length = bs.length
    · rw [if_neg (fun h => h hlength)]
      show (if as.length = bs.length then _ else _) = _
      rw [if_pos hlength]
      by_cases hroom : frames < step + 1
      · rw [if_pos hroom, takeFrames_of_lt (by omega)]
        rfl
      · rw [if_neg hroom, takeFrames_of_le (by omega), Nat.sub_sub, Nat.add_comm 1 step]
        rfl
    · rw [if_pos hlength]
      show (if as.length = bs.length then _ else _) = _
      rw [if_neg hlength]
      rfl

theorem equalAllWithin_cons (a b : Value) (as bs : List Value) :
    equalAllWithin step frames (a :: as) (b :: bs) =
      match a.equalWithin step frames b with
      | .error overflow => .error overflow
      | .ok false => .ok false
      | .ok true => equalAllWithin step frames as bs := by
  rw [equalAllWithin]
  cases a.equalWithin step frames b with
  | error overflow => rfl
  | ok result => cases result <;> rfl

/-- What is compared in one frame is so whatever becomes of the names of built-in functions. -/
theorem equalWithin_plain_blurred (h : ¬(a.kind = .array ∧ b.kind = .array)) :
    a.blurred.equalWithin step frames b.blurred = a.equalWithin step frames b := by
  have hequal : a.blurred.equal b.blurred = a.equal b := by
    rw [Bool.eq_iff_iff, equal_iff, equal_iff, blurred_blurred, blurred_blurred]
  have hblurred : ¬(a.blurred.kind = .array ∧ b.blurred.kind = .array) := by
    rw [kind_blurred, kind_blurred]
    exact h
  rw [equalWithin_of_plain hblurred, equalWithin_of_plain h, hequal]

mutual

/-- A comparison goes on just as far for values that are the same up to built-in functions of one name. -/
theorem equalWithin_blurred (step : Nat) (a b : Value) (frames : Nat) :
    a.blurred.equalWithin step frames b.blurred = a.equalWithin step frames b := by
  by_cases hboth : a.kind = .array ∧ b.kind = .array
  · cases a with
    | array as =>
        cases b with
        | array bs =>
            rw [blurred, blurred, equalWithin_array, equalWithin_array, length_blurredAll,
              length_blurredAll, equalAllWithin_blurredAll step as bs _]
        | _ => cases hboth.2
    | _ => cases hboth.1
  · exact equalWithin_plain_blurred hboth

theorem equalAllWithin_blurredAll (step : Nat) (as bs : List Value) (frames : Nat) :
    equalAllWithin step frames (blurredAll as) (blurredAll bs) = equalAllWithin step frames as bs := by
  cases as with
  | nil => cases bs <;> rfl
  | cons a as =>
      cases bs with
      | nil => rfl
      | cons b bs =>
          rw [blurredAll, blurredAll, equalAllWithin_cons, equalAllWithin_cons,
            equalWithin_blurred step a b frames, equalAllWithin_blurredAll step as bs frames]

end

theorem equalWithin_of_equal_left {a b : Value} (h : a.equal b = true) (step frames : Nat) (c : Value) :
    a.equalWithin step frames c = b.equalWithin step frames c := by
  rw [← equalWithin_blurred step a c, ← equalWithin_blurred step b c, (equal_iff a b).mp h]

mutual

theorem equalWithin_comm (step : Nat) (a b : Value) (frames : Nat) :
    a.equalWithin step frames b = b.equalWithin step frames a := by
  by_cases hboth : a.kind = .array ∧ b.kind = .array
  · cases a with
    | array as =>
        cases b with
        | array bs =>
            rw [equalWithin_array, equalWithin_array, equalAllWithin_comm step as bs _]
            simp only [ne_comm]
        | _ => cases hboth.2
    | _ => cases hboth.1
  · rw [equalWithin_of_plain hboth, equalWithin_of_plain (fun h => hboth h.symm), equal_comm]

theorem equalAllWithin_comm (step : Nat) (as bs : List Value) (frames : Nat) :
    equalAllWithin step frames as bs = equalAllWithin step frames bs as := by
  cases as with
  | nil => cases bs <;> rfl
  | cons a as =>
      cases bs with
      | nil => rfl
      | cons b bs =>
          rw [equalAllWithin_cons, equalAllWithin_cons, equalWithin_comm step a b frames,
            equalAllWithin_comm step as bs frames]

end

theorem framesToCompare_of_plain (h : a.kind ≠ .array) : a.framesToCompare step = 1 := by
  cases a with
  | array items => exact absurd rfl h
  | _ => rfl

mutual

/-- With frames for one of two values, it is found out whether they are equal. -/
theorem equalWithin_of_room (step : Nat) (a b : Value) (frames : Nat) (h : a.framesToCompare step ≤ frames) :
    a.equalWithin step frames b = .ok (a.equal b) := by
  have hone := a.one_le_framesToCompare step
  by_cases hboth : a.kind = .array ∧ b.kind = .array
  · cases a with
    | array as =>
        cases b with
        | array bs =>
            rw [framesToCompare] at h
            rw [equalWithin_array, if_neg (by omega), if_neg (by omega : ¬frames < step + 1)]
            by_cases hlength : as.length = bs.length
            · rw [if_neg (fun hne => hne hlength),
                equalAllWithin_of_room step as bs (frames - (step + 1)) hlength (by omega)]
              rfl
            · rw [if_pos hlength]
              exact congrArg Except.ok (equalAll_of_length_ne hlength).symm
        | _ => cases hboth.2
    | _ => cases hboth.1
  · rw [equalWithin_of_plain hboth, takeFrames_of_le (Nat.le_trans hone h)]
    rfl

theorem equalAllWithin_of_room (step : Nat) (as bs : List Value) (frames : Nat)
    (hlength : as.length = bs.length) (h : framesToCompareAll step as ≤ frames) :
    equalAllWithin step frames as bs = .ok (equalAll as bs) := by
  cases as with
  | nil =>
      cases bs with
      | nil => rfl
      | cons b bs => cases hlength
  | cons a as =>
      cases bs with
      | nil => cases hlength
      | cons b bs =>
          rw [framesToCompareAll] at h
          rw [equalAllWithin_cons, equalAll, equalWithin_of_room step a b frames (by omega)]
          cases a.equal b with
          | false => rfl
          | true => exact equalAllWithin_of_room step as bs frames (Nat.succ.inj hlength) (by omega)

end

mutual

/-- A value is found to be equal to itself just if there are frames enough. -/
theorem equalWithin_self (step : Nat) (a : Value) (frames : Nat) :
    a.equalWithin step frames a =
      if a.framesToCompare step ≤ frames then .ok true else .error .stackFull := by
  by_cases harray : a.kind = .array
  · cases a with
    | array as =>
        rw [equalWithin_array, framesToCompare]
        by_cases hroom : step + 1 ≤ frames
        · rw [if_neg (by omega), if_neg (fun h => h rfl), if_neg (Nat.not_lt_of_le hroom),
            equalAllWithin_self step as (frames - (step + 1))]
          by_cases hitems : framesToCompareAll step as ≤ frames - (step + 1)
          · rw [if_pos hitems, if_pos (by omega)]
          · rw [if_neg hitems, if_neg (by omega)]
        · rw [if_neg (by omega : ¬framesToCompareAll step as + step + 1 ≤ frames)]
          by_cases hzero : frames = 0
          · rw [if_pos hzero]
          · rw [if_neg hzero, if_neg (fun h => h rfl), if_pos (Nat.lt_of_not_le hroom)]
    | _ => cases harray
  · rw [equalWithin_of_plain (fun h => harray h.1), framesToCompare_of_plain harray, equal_self]
    unfold takeFrames
    split <;> rfl

theorem equalAllWithin_self (step : Nat) (as : List Value) (frames : Nat) :
    equalAllWithin step frames as as =
      if framesToCompareAll step as ≤ frames then .ok true else .error .stackFull := by
  cases as with
  | nil => exact (if_pos (Nat.zero_le _)).symm
  | cons a as =>
      rw [equalAllWithin_cons, framesToCompareAll, equalWithin_self step a frames]
      by_cases hfirst : a.framesToCompare step ≤ frames
      · rw [if_pos hfirst]
        show equalAllWithin step frames as as = _
        rw [equalAllWithin_self step as frames]
        by_cases hrest : framesToCompareAll step as ≤ frames
        · rw [if_pos hrest, if_pos (Nat.max_le.mpr ⟨hfirst, hrest⟩)]
        · rw [if_neg hrest, if_neg (fun h => hrest (Nat.max_le.mp h).2)]
      · rw [if_neg hfirst, if_neg (fun h => hfirst (Nat.max_le.mp h).1)]

end

mutual

/-- What is found out is right. -/
theorem equalWithin_cases (step : Nat) (a b : Value) (frames : Nat) :
    a.equalWithin step frames b = .ok (a.equal b) ∨ a.equalWithin step frames b = .error .stackFull := by
  by_cases hboth : a.kind = .array ∧ b.kind = .array
  · cases a with
    | array as =>
        cases b with
        | array bs =>
            rw [equalWithin_array]
            split
            · exact Or.inr rfl
            · by_cases hlength : as.length = bs.length
              · rw [if_neg (fun hne => hne hlength)]
                split
                · exact Or.inr rfl
                · exact equalAllWithin_cases step as bs _ hlength
              · rw [if_pos hlength]
                exact Or.inl (congrArg Except.ok (equalAll_of_length_ne hlength).symm)
        | _ => cases hboth.2
    | _ => cases hboth.1
  · rw [equalWithin_of_plain hboth]
    unfold takeFrames
    split
    · exact Or.inl rfl
    · exact Or.inr rfl

theorem equalAllWithin_cases (step : Nat) (as bs : List Value) (frames : Nat)
    (hlength : as.length = bs.length) :
    equalAllWithin step frames as bs = .ok (equalAll as bs) ∨
      equalAllWithin step frames as bs = .error .stackFull := by
  cases as with
  | nil =>
      cases bs with
      | nil => exact Or.inl rfl
      | cons b bs => cases hlength
  | cons a as =>
      cases bs with
      | nil => cases hlength
      | cons b bs =>
          rw [equalAllWithin_cons, equalAll]
          rcases equalWithin_cases step a b frames with hfound | hfull
          · rw [hfound]
            cases a.equal b with
            | false => exact Or.inl rfl
            | true => exact equalAllWithin_cases step as bs frames (Nat.succ.inj hlength)
          · rw [hfull]
            exact Or.inr rfl

end

theorem eq_equal_of_equalWithin {result : Bool} (h : a.equalWithin step frames b = .ok result) :
    a.equal b = result := by
  rcases equalWithin_cases step a b frames with hfound | hfull
  · exact Except.ok.inj (hfound.symm.trans h)
  · cases hfull.symm.trans h

end Room

end Value

section Operators

/-- The operator comes to a test of whether its operands are equal, unless they are strings. -/
structure Compares (op : String) (test : Bool → Bool) : Prop where
  integers : ∀ a b, applyInteger op a b = .boolean (test (decide (a = b)))
  strings : ∀ a b, applyString op a b = (RuntimeError.unknownBinary .string op .string).value
  same : ∀ step frames left right, applySameWithin step frames op left right =
    (left.equalWithin step frames right).map fun found => .boolean (test found)

theorem compares_equal : Compares "==" id :=
  ⟨fun _ _ => rfl, fun _ _ => rfl, fun _ _ _ _ => rfl⟩

theorem compares_different : Compares "!=" not := by
  refine ⟨fun a b => ?_, fun _ _ => rfl, fun _ _ _ _ => rfl⟩
  rw [← decide_not]
  rfl

/-- Two values of one kind, and not strings. -/
def Comparable (left right : Value) : Prop :=
  left.kind = right.kind ∧ left.kind ≠ .string

instance (left right : Value) : Decidable (Comparable left right) :=
  inferInstanceAs (Decidable (_ ∧ _))

/-- What two values come to that can be compared: integers take no frame of their own. -/
def comparedWithin (step frames : Nat) : Value → Value → Bounded Bool
  | .integer a, .integer b => .ok (decide (a = b))
  | left, right => left.equalWithin step frames right

variable {left right : Value} {step frames : Nat}

theorem comparedWithin_comm (left right : Value) :
    comparedWithin step frames left right = comparedWithin step frames right left := by
  unfold comparedWithin
  split
  · simp only [eq_comm]
  · next hleft =>
      split
      · next a b => exact absurd rfl (hleft b a rfl)
      · exact Value.equalWithin_comm step left right frames

theorem comparedWithin_cases (step frames : Nat) (left right : Value) :
    comparedWithin step frames left right = .ok (left.equal right) ∨
      comparedWithin step frames left right = .error .stackFull := by
  unfold comparedWithin
  split
  · exact Or.inl rfl
  · exact Value.equalWithin_cases step left right frames

theorem eq_equal_of_comparedWithin {result : Bool}
    (h : comparedWithin step frames left right = .ok result) : left.equal right = result := by
  rcases comparedWithin_cases step frames left right with hfound | hfull
  · exact Except.ok.inj (hfound.symm.trans h)
  · cases hfull.symm.trans h

theorem Comparable.symm (h : Comparable left right) : Comparable right left :=
  ⟨h.1.symm, fun hright => h.2 (h.1.trans hright)⟩

theorem not_comparable_iff :
    ¬Comparable left right ↔
      left.kind ≠ right.kind ∨ left.kind = .string ∧ right.kind = .string := by
  constructor
  · intro h
    by_cases hkind : left.kind = right.kind
    · have hleft : left.kind = .string := Decidable.not_not.mp fun hother => h ⟨hkind, hother⟩
      exact Or.inr ⟨hleft, hkind ▸ hleft⟩
    · exact Or.inl hkind
  · rintro (hkind | ⟨hleft, -⟩) ⟨hsame, hother⟩
    · exact hkind hsame
    · exact hother hleft

variable {op : String} {test : Bool → Bool} (h : Compares op test)
include h

/-- Values that can be compared are tested for equality, whichever path they take. -/
theorem Compares.applyWithin_eq (hvalues : Comparable left right) :
    applyBinaryWithin step frames op left right =
      (comparedWithin step frames left right).map fun found => .boolean (test found) := by
  unfold applyBinaryWithin comparedWithin
  split
  · next a b => exact congrArg Except.ok (h.integers a b)
  · exact absurd rfl hvalues.2
  · next hintegers hstrings =>
      rw [if_pos hvalues.1, h.same]
      split
      · exact absurd rfl (hintegers _ _ rfl)
      · rfl

/-- Values that cannot be compared make an error, for which no frames are needed. -/
theorem Compares.exists_error_of_not_comparable (hvalues : ¬Comparable left right) :
    ∃ v, applyBinaryWithin step frames op left right = .ok v ∧ v.isError = true := by
  unfold applyBinaryWithin
  split
  · exact absurd ⟨rfl, nofun⟩ hvalues
  · next a b => exact ⟨_, congrArg Except.ok (h.strings a b), rfl⟩
  · next hstrings =>
      have hkind : left.kind ≠ right.kind := by
        rcases not_comparable_iff.mp hvalues with hkind | ⟨hleft, hright⟩
        · exact hkind
        · cases left with
          | string a =>
              cases right with
              | string b => exact absurd rfl (hstrings a b rfl)
              | _ => cases hright
          | _ => cases hleft
      rw [if_neg hkind]
      exact ⟨_, rfl, rfl⟩

/-- Only values that can be compared come to a truth value, and it tells what was found. -/
theorem Compares.exists_compared {result : Bool}
    (hresult : applyBinaryWithin step frames op left right = .ok (.boolean result)) :
    Comparable left right ∧
      ∃ found, comparedWithin step frames left right = .ok found ∧ test found = result := by
  by_cases hvalues : Comparable left right
  · refine ⟨hvalues, ?_⟩
    rw [h.applyWithin_eq hvalues] at hresult
    cases hcompared : comparedWithin step frames left right with
    | error overflow =>
        rw [hcompared] at hresult
        cases hresult
    | ok found =>
        rw [hcompared] at hresult
        cases hresult
        exact ⟨found, rfl, rfl⟩
  · obtain ⟨v, hv, herror⟩ : ∃ v, applyBinaryWithin step frames op left right = .ok v ∧ v.isError = true :=
      h.exists_error_of_not_comparable hvalues
    rw [hresult] at hv
    cases hv
    cases herror

theorem Compares.yields_error_iff :
    (∃ v, applyBinaryWithin step frames op left right = .ok v ∧ v.isError = true) ↔
      ¬Comparable left right := by
  refine ⟨?_, h.exists_error_of_not_comparable⟩
  rintro ⟨v, hv, herror⟩ hvalues
  rw [h.applyWithin_eq hvalues] at hv
  cases hfound : comparedWithin step frames left right with
  | error overflow =>
      rw [hfound] at hv
      cases hv
  | ok found =>
      rw [hfound] at hv
      cases hv
      cases herror

end Operators

/-- An operator that finds frames enough comes to what it does where nothing counts them. -/
theorem applyBinary_eq_of_within {step frames : Nat} {op : String} {left right v : Value}
    (h : applyBinaryWithin step frames op left right = .ok v) : v = applyBinary op left right := by
  have hcompared : ∀ test : Bool → Bool,
      (left.equalWithin step frames right).map (fun found => Value.boolean (test found)) = .ok v →
        v = .boolean (test (left.equal right)) := by
    intro test hv
    rcases left.equalWithin_cases step right frames with hfound | hfull
    · rw [hfound] at hv
      exact (Except.ok.inj hv).symm
    · rw [hfull] at hv
      cases hv
  unfold applyBinaryWithin at h
  unfold applyBinary
  split at h
  · exact (Except.ok.inj h).symm
  · exact (Except.ok.inj h).symm
  · by_cases hkind : left.kind = right.kind
    · rw [if_pos hkind] at h ⊢
      unfold applySameWithin at h
      unfold applySame
      split at h
      · exact hcompared id h
      · exact hcompared not h
      · exact (Except.ok.inj h).symm
    · rw [if_neg hkind] at h ⊢
      exact (Except.ok.inj h).symm

/-- Let there be any number of frames, and let any number of them be taken by every level of arrays.  Two
values come to their equality or to a full stack; they come to their equality if there are frames for one of
them, and a value and itself come to a full stack if there are not.  Comparing is symmetric, the full stack
included.  What is found equal is so in a chain; equal values are shown alike, with the same text or not at
all, and count alike as true or false.  Built-in functions are compared by name, and functions and returned
values made separately are never equal.

The operator that tests for equality comes to an error if its operands are of two kinds or both strings, and
only then; otherwise it comes to the equality of its operands or to a full stack.  Where it comes to a truth
value, it does so in either order, and the operator that tests for difference comes to the opposite.  What
operators come to with these frames they come to in an evaluation. -/
theorem comparisons_follow_equality (step frames : Nat) :
    (∀ a b : Value, a.equalWithin step frames b = .ok (a.equal b) ∨
      a.equalWithin step frames b = .error .stackFull) ∧
    (∀ a b : Value, a.framesToCompare step ≤ frames → a.equalWithin step frames b = .ok (a.equal b)) ∧
    (∀ a : Value, a.equalWithin step frames a =
      if a.framesToCompare step ≤ frames then .ok true else .error .stackFull) ∧
    (∀ a b : Value, a.equalWithin step frames b = b.equalWithin step frames a) ∧
    (∀ a b c : Value, a.equalWithin step frames b = .ok true → b.equalWithin step frames c = .ok true →
      a.equalWithin step frames c = .ok true) ∧
    (∀ a b : Value, a.equalWithin step frames b = .ok true →
      (∀ cost left, a.shownWithin cost left = b.shownWithin cost left) ∧
        a.render = b.render ∧ a.truthy = b.truthy) ∧
    (∀ f g : Builtin, (Value.builtin f).equal (.builtin g) = (f.name == g.name)) ∧
    (∀ f g : Closure, f.serial ≠ g.serial → (Value.function f).equal (.function g) = false) ∧
    (∀ (i j : Nat) (a b : Value), i ≠ j → (Value.returned i a).equal (.returned j b) = false) ∧
    (∀ (left right : Value) (result : Bool),
      applyBinaryWithin step frames "==" left right = .ok (.boolean result) →
        result = left.equal right ∧
        applyBinaryWithin step frames "!=" left right = .ok (.boolean (!result)) ∧
        applyBinaryWithin step frames "==" right left = .ok (.boolean result)) ∧
    (∀ left right : Value,
      (∃ v, applyBinaryWithin step frames "==" left right = .ok v ∧ v.isError = true) ↔
        left.kind ≠ right.kind ∨ left.kind = .string ∧ right.kind = .string) ∧
    (∀ left right : Value, left.kind = right.kind → left.kind ≠ .string →
      applyBinaryWithin step frames "==" left right = .ok (.boolean (left.equal right)) ∨
        applyBinaryWithin step frames "==" left right = .error .stackFull) ∧
    (∀ (op : String) (left right v : Value), applyBinaryWithin step frames op left right = .ok v →
      v = applyBinary op left right) := by
  refine ⟨fun a b => a.equalWithin_cases step b frames, fun a b => a.equalWithin_of_room step b frames,
    fun a => a.equalWithin_self step frames, fun a b => a.equalWithin_comm step b frames, ?_, ?_,
    fun _ _ => rfl, ?_, ?_, ?_, ?_, ?_, fun _ _ _ _ => applyBinary_eq_of_within⟩
  · intro a b c hab hbc
    rw [Value.equalWithin_of_equal_left (Value.eq_equal_of_equalWithin hab), hbc]
  · intro a b hab
    have hequal := Value.eq_equal_of_equalWithin hab
    refine ⟨fun cost left => ?_, Value.eq_of_equal Value.render_blurred hequal,
      Value.eq_of_equal Value.truthy_blurred hequal⟩
    exact Value.eq_of_equal (Value.shownWithin_blurred cost left) hequal
  · intro f g hserial
    rw [Value.equal, decide_eq_false_iff_not]
    rintro rfl
    exact hserial rfl
  · intro i j a b hserial
    rw [Value.equal, beq_eq_false_iff_ne.mpr hserial, Bool.false_and]
  · intro left right result hresult
    obtain ⟨hvalues, found, hfound, rfl⟩ := compares_equal.exists_compared hresult
    refine ⟨(eq_equal_of_comparedWithin hfound).symm, ?_, ?_⟩
    · rw [compares_different.applyWithin_eq hvalues, hfound]
      rfl
    · rw [compares_equal.applyWithin_eq hvalues.symm, comparedWithin_comm, hfound]
      rfl
  · intro left right
    rw [compares_equal.yields_error_iff, not_comparable_iff]
  · intro left right hkind hstring
    rw [compares_equal.applyWithin_eq ⟨hkind, hstring⟩]
    rcases comparedWithin_cases step frames left right with hfound | hfull
    · rw [hfound]
      exact Or.inl rfl
    · rw [hfull]
      exact Or.inr rfl

section Nested

/-- A number in so many arrays. -/
def nestedValue : Nat → Value
  | 0 => .integer 0
  | n + 1 => .array [nestedValue n]

theorem framesToCompare_nestedValue (step n : Nat) :
    (nestedValue n).framesToCompare step = (step + 1) * n + 1 := by
  induction n with
  | zero => rfl
  | succ n ih =>
      rw [nestedValue, Value.framesToCompare, Value.framesToCompareAll, Value.framesToCompareAll, ih,
        Nat.max_zero, Nat.mul_succ]
      omega

end Nested

/-- An array that is nested too deeply is not found to be equal to itself, even if a level of arrays takes no
more frames than any host makes it take. -/
theorem comparisons_of_nestedValue :
    (nestedValue 8192).equalWithin 1 baseLimit.toNat (nestedValue 8192) = .error .stackFull ∧
      applyBinaryWithin 1 baseLimit.toNat "==" (nestedValue 8192) (nestedValue 8192) =
        .error .stackFull := by
  have hroom : ¬(nestedValue 8192).framesToCompare 1 ≤ baseLimit.toNat := by
    rw [framesToCompare_nestedValue]
    decide
  have hfull : (nestedValue 8192).equalWithin 1 baseLimit.toNat (nestedValue 8192) =
      .error .stackFull := by
    rw [Value.equalWithin_self, if_neg hroom]
  refine ⟨hfull, ?_⟩
  have hvalues : Comparable (nestedValue 8192) (nestedValue 8192) := ⟨rfl, nofun⟩
  have hcompared : comparedWithin 1 baseLimit.toNat (nestedValue 8192) (nestedValue 8192) =
      .error .stackFull := hfull
  rw [compares_equal.applyWithin_eq hvalues, hcompared]
  rfl

end Scriptlet
