import Scriptlet.Integer
import Scriptlet.RuntimeError

/-!
# Operations on values

Operators, indexing and the built-in functions, as functions on values.

**Integers.**  Results are exact or an error: an operation that leaves the sixty-four bits fails,
and so does division by zero.  Division rounds toward zero.

**Strings** can be joined and nothing else; they cannot even be compared.

**Other operands** of one kind can be compared for equality, and operands of two kinds cannot be
combined at all.

**Functions of the host** are given by an instance of `Natives`.
-/

namespace Scriptlet

/-- An integer as a value, if it is one of the language. -/
def checked (n : Int) : Value :=
  if inRange n then .integer n else RuntimeError.integerOverflow.value

/-- An operator on one operand. -/
def applyUnary (op : String) (right : Value) : Value :=
  match op, right with
  | "!", right => .boolean (!right.truthy)
  | "-", .integer n => checked (-n)
  | op, right => (RuntimeError.unknownUnary op right.kind).value

/-- The quotient of two integers: that of their magnitudes, with a minus sign if only one of them is
negative. -/
def quotient (a b : Int) : Int :=
  if a < 0 ↔ b < 0 then (a.natAbs / b.natAbs : Nat) else -(a.natAbs / b.natAbs : Nat)

/-- An operator on two integers. -/
def applyInteger (op : String) (a b : Int) : Value :=
  match op with
  | "+" => checked (a + b)
  | "-" => checked (a - b)
  | "*" => checked (a * b)
  | "/" => if b = 0 then RuntimeError.divisionByZero.value else checked (quotient a b)
  | "<" => .boolean (a < b)
  | ">" => .boolean (b < a)
  | "==" => .boolean (a = b)
  | "!=" => .boolean (a ≠ b)
  | op => (RuntimeError.unknownBinary .integer op .integer).value

/-- An operator on two strings. -/
def applyString (op : String) (a b : String) : Value :=
  match op with
  | "+" => .string (a ++ b)
  | op => (RuntimeError.unknownBinary .string op .string).value

/-- An operator on any two values of one kind. -/
def applySame (op : String) (left right : Value) : Value :=
  match op with
  | "==" => .boolean (left.equal right)
  | "!=" => .boolean (!left.equal right)
  | op => (RuntimeError.unknownBinary left.kind op right.kind).value

/-- An operator on two operands. -/
def applyBinary (op : String) (left right : Value) : Value :=
  match left, right with
  | .integer a, .integer b => applyInteger op a b
  | .string a, .string b => applyString op a b
  | left, right =>
      if left.kind = right.kind then applySame op left right
      else (RuntimeError.typeMismatch left.kind op right.kind).value

/-- An operator on any two values of one kind, as far as there are frames to compare them. -/
def applySameWithin (step frames : Nat) (op : String) (left right : Value) : Bounded Value :=
  match op with
  | "==" => return .boolean (← left.equalWithin step frames right)
  | "!=" => return .boolean (!(← left.equalWithin step frames right))
  | op => return (RuntimeError.unknownBinary left.kind op right.kind).value

/-- An operator on two operands, as far as there are frames to compare them. -/
def applyBinaryWithin (step frames : Nat) (op : String) (left right : Value) : Bounded Value :=
  match left, right with
  | .integer a, .integer b => return applyInteger op a b
  | .string a, .string b => return applyString op a b
  | left, right =>
      if left.kind = right.kind then applySameWithin step frames op left right
      else return (RuntimeError.typeMismatch left.kind op right.kind).value

/-- An element of an array.  There is none before the first or after the last. -/
def applyIndex (left subscript : Value) : Value :=
  match left, subscript with
  | .array items, .integer n => if n < 0 then .null else items.getD n.toNat .null
  | left, _ => (RuntimeError.notIndexable left.kind).value

/-- What the functions come to that the host adds, by their numbers.  They come to a value for any arguments
of the right number, and change nothing. -/
class Natives where
  answer : Nat → List Value → Value

/-- Where nothing is said of functions of the host there are none, and a call of one is null. -/
instance (priority := low) : Natives := ⟨fun _ _ => .null⟩

namespace Builtin

/-- The length of a string, in characters, or of an array. -/
def length : Value → Value
  | .string s => .integer s.length
  | .array items => .integer items.length
  | v => (RuntimeError.noLength v.kind).value

/-- Works on the items of an array. -/
def onArray (b : Builtin) (f : List Value → Value) : Value → Value
  | .array items => f items
  | v => (RuntimeError.notArray b v.kind).value

/-- Calls a built-in function.  Arrays are never changed: `rest` and `push` make new ones. -/
def call [Natives] : Builtin → List Value → Value
  | len, [v] => length v
  | first, [v] => onArray first (fun items => items.headD .null) v
  | last, [v] => onArray last (fun items => items.getLastD .null) v
  | rest, [v] =>
      onArray rest (fun items => if items.length ≤ 1 then .null else .array items.tail) v
  | push, [v, item] => onArray push (fun items => .array (items ++ [item])) v
  | host _ arity number, arguments =>
      if arguments.length = arity then Natives.answer number arguments
      else (RuntimeError.argumentCount arguments.length arity).value
  | b, arguments => (RuntimeError.argumentCount arguments.length b.arity).value

end Builtin

end Scriptlet
