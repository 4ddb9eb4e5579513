import Scriptlet.Program.Source
import Scriptlet.Stack

/-!
# Values

What programs compute with.

**Kinds.**  Every value is of one of nine kinds, whose names appear in error messages.  Errors are
values, and so is what a `return` carries up to the function it leaves.

**Identity.**  A function, and what a `return` carries, is an object of its own: making the same
one twice makes two.  Each has a serial number, and two of them are equal only if they are the same
object.  Built-in functions are equal if they have one name.  All other values are equal when their
contents are.

**Built-in functions** are those the language comes with, and those that the host adds to it.  What the
latter do is not known here; they are told apart by their numbers.
-/

namespace Scriptlet

/-- The kinds of value. -/
inductive Kind where
  | null
  | integer
  | boolean
  | string
  | array
  | function
  | builtin
  | error
  | returned
  deriving DecidableEq, Repr

/-- The name of a kind. -/
def Kind.name : Kind → String
  | null => "NULL"
  | integer => "INTEGER"
  | boolean => "BOOLEAN"
  | string => "STRING"
  | array => "ARRAY"
  | function => "FUNCTION"
  | builtin => "BUILTIN"
  | error => "ERROR"
  | returned => "RETURN_VALUE"

/-- The functions the language comes with, and those that the host adds. -/
inductive Builtin where
  | len
  | first
  | last
  | rest
  | push
  | host (name : String) (arity : Nat) (number : Nat)
  deriving DecidableEq, Repr

namespace Builtin

/-- The name of a function. -/
def name : Builtin → String
  | len => "len"
  | first => "first"
  | last => "last"
  | rest => "rest"
  | push => "push"
  | host name _ _ => name

/-- How many arguments a function takes. -/
def arity : Builtin → Nat
  | push => 2
  | host _ arity _ => arity
  | _ => 1

/-- Every function the language comes with. -/
def all : List Builtin := [len, first, last, rest, push]

/-- The function with a given name, among those the language comes with. -/
def ofName? (text : String) : Option Builtin :=
  all.find? fun b => b.name == text

end Builtin

/-- Scopes are known by their number. -/
abbrev ScopeId := Nat

/-- A function of a program: its serial number, its parameters, its body and the scope it was made
in. -/
structure Closure where
  serial : Nat
  parameters : List String
  body : Block
  scope : ScopeId
  deriving DecidableEq

/-- Values. -/
inductive Value where
  | null
  | integer (value : Int)
  | boolean (value : Bool)
  | string (value : String)
  | array (items : List Value)
  | function (closure : Closure)
  | builtin (function : Builtin)
  | error (message : String)
  | returned (serial : Nat) (value : Value)

namespace Value

/-- The kind of a value. -/
def kind : Value → Kind
  | null => .null
  | integer _ => .integer
  | boolean _ => .boolean
  | string _ => .string
  | array _ => .array
  | function _ => .function
  | builtin _ => .builtin
  | error _ => .error
  | returned _ _ => .returned

/-- Only `false` and null count as false. -/
def truthy : Value → Bool
  | boolean value => value
  | null => false
  | _ => true

/-- Whether a value is an error. -/
def isError : Value → Bool
  | error _ => true
  | _ => false

/-- Whether a value ends the block that a statement of it yields it in. -/
def stops : Value → Bool
  | error _ => true
  | returned _ _ => true
  | _ => false

/-- What a `return` carries, one level of it; any other value is itself. -/
def unwrapped : Value → Value
  | returned _ value => value
  | value => value

end Value

/-- The text of a function of a program. -/
def Closure.display (f : Closure) : String :=
  "fn(" ++ commaSeparated f.parameters ++ ") \x7b\n" ++ Stmt.sourceAll f.body ++ "\n\x7d"

namespace Value

mutual

/-- The text of a value.  Strings are quoted and nothing in them is escaped; what a `return`
carries shows as its content. -/
def display : Value → String
  | null => "null"
  | integer value => toString value
  | boolean value => if value then "true" else "false"
  | string value => "\"" ++ value ++ "\""
  | array items => "[" ++ commaSeparated (displays items) ++ "]"
  | function closure => closure.display
  | builtin _ => "builtin function"
  | error message => "ERROR: " ++ message
  | returned _ value => display value

/-- The texts of several values. -/
def displays : List Value → List String
  | [] => []
  | v :: rest => display v :: displays rest

end

mutual

/-- The type name of the first foreign object in the functions a value holds. -/
def foreign? : Value → Option String
  | array items => foreignAmong? items
  | function closure => Stmt.foreignAmong? closure.body
  | returned _ value => foreign? value
  | _ => none

/-- The type name of the first foreign object in the functions several values hold. -/
def foreignAmong? : List Value → Option String
  | [] => none
  | v :: rest => (foreign? v).or (foreignAmong? rest)

end

/-- The text of a value, unless a function in it holds a foreign object. -/
def render (v : Value) : Except Unprintable String :=
  match v.foreign? with
  | some typeName => .error (.render typeName)
  | none => .ok v.display

mutual

/-- Whether two values are equal. -/
def equal : Value → Value → Bool
  | null, null => true
  | integer a, integer b => a == b
  | boolean a, boolean b => a == b
  | string a, string b => a == b
  | array as, array bs => equalAll as bs
  | function f, function g => f = g
  | builtin f, builtin g => f.name == g.name
  | error a, error b => a == b
  | returned i a, returned j b => i == j && equal a b
  | _, _ => false

/-- Whether two lists of values are equal, one by one. -/
def equalAll : List Value → List Value → Bool
  | [], [] => true
  | a :: as, b :: bs => equal a b && equalAll as bs
  | _, _ => false

end

mutual

/-- Whether two values are equal, as far as there are frames to find out.  A comparison takes a frame, and
`step` more if it goes on to the items of two arrays. -/
def equalWithin (step frames : Nat) : Value → Value → Bounded Bool
  | array as, array bs => do
      let left ← takeFrames 1 frames
      if as.length = bs.length then
        equalAllWithin step (← takeFrames step left) as bs
      else
        return false
  | a, b => do
      let _ ← takeFrames 1 frames
      return equal a b

/-- Whether the items of two arrays of one length are equal, up to the first that are not. -/
def equalAllWithin (step frames : Nat) : List Value → List Value → Bounded Bool
  | a :: as, b :: bs => do
      if ← equalWithin step frames a b then
        equalAllWithin step frames as bs
      else
        return false
  | _, _ => return true

end

end Value

end Scriptlet
