import Scriptlet.Value

/-!
# Errors of running programs

What can go wrong while a program runs, and how it is said.  An error becomes a value, which the
program cannot catch: everything that meets it hands it on.
-/

namespace Scriptlet

/-- What went wrong. -/
inductive RuntimeError where
  | unknownUnary (op : String) (right : Kind)
  | unknownBinary (left : Kind) (op : String) (right : Kind)
  | typeMismatch (left : Kind) (op : String) (right : Kind)
  | integerOverflow
  | divisionByZero
  | notIndexable (left : Kind)
  | notFunction (callee : Kind)
  | notFound (name : String)
  | hashUnsupported
  | foreignObject (typeName : String)
  | argumentCount (given wanted : Nat)
  | noLength (argument : Kind)
  | notArray (function : Builtin) (argument : Kind)
  deriving DecidableEq, Repr

namespace RuntimeError

/-- The wording of an error. -/
def message : RuntimeError → String
  | unknownUnary op right => "unknown operator: " ++ op ++ right.name
  | unknownBinary left op right =>
      "unknown operator: " ++ left.name ++ " " ++ op ++ " " ++ right.name
  | typeMismatch left op right => "type mismatch: " ++ left.name ++ " " ++ op ++ " " ++ right.name
  | integerOverflow => "integer overflow"
  | divisionByZero => "division by zero"
  | notIndexable left => "index operator not supported: " ++ left.name
  | notFunction callee => "not a function: " ++ callee.name
  | notFound name => "identifier not found: " ++ name
  | hashUnsupported => "hash literals are not supported"
  | foreignObject typeName => "unknown node: " ++ typeName
  | argumentCount given wanted =>
      "wrong number of arguments. got=" ++ toString given ++ ", want=" ++ toString wanted
  | noLength argument => "argument to 'len' not supported, got " ++ argument.name
  | notArray function argument =>
      "argument to '" ++ function.name ++ "' must be ARRAY, got " ++ argument.name

/-- An error as a value. -/
def value (e : RuntimeError) : Value :=
  .error e.message

end RuntimeError

end Scriptlet
