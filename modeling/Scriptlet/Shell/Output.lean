/-!
# Output

What a program writes, on its two channels, and how often it clears the screen.
-/

namespace Scriptlet

/-- What was written. -/
structure Output where
  stdout : String
  stderr : String
  clears : Nat
  deriving DecidableEq, Repr

namespace Output

/-- Nothing. -/
def none : Output := ⟨"", "", 0⟩

/-- A text on the first channel. -/
def out (text : String) : Output := ⟨text, "", 0⟩

/-- A text on the second channel. -/
def err (text : String) : Output := ⟨"", text, 0⟩

/-- A cleared screen. -/
def clear : Output := ⟨"", "", 1⟩

instance : Append Output where
  append a b := ⟨a.stdout ++ b.stdout, a.stderr ++ b.stderr, a.clears + b.clears⟩

theorem none_append (o : Output) : none ++ o = o := by
  show (⟨"" ++ o.stdout, "" ++ o.stderr, 0 + o.clears⟩ : Output) = o
  rw [String.empty_append, String.empty_append, Nat.zero_add]

end Output

/-- What is said when calls or expressions nest too deeply, in the words of the host. -/
def tooDeepLine (complaint : String) : String :=
  "ERROR: " ++ complaint ++ "\n"

/-- What stands for the trace of the host. -/
def hostTrace : String := "<traceback>\n"

end Scriptlet
