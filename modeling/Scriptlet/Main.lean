import Scriptlet.CommandLine.Basic

/-!
# The program

Runs the command line in the world: reads the variables, the file or the standard input, and writes
what is to be written.
-/

namespace Scriptlet

/-- Everything that can still be read. -/
partial def readAll (stream : IO.FS.Stream) (read : String) : IO String := do
  let line ← stream.getLine
  if line.isEmpty then
    return read
  else
    readAll stream (read ++ line)

/-- What a path leads to. -/
def probeFile (path : String) : IO FileAnswer := do
  try
    return .contents (← IO.FS.readBinFile path)
  catch _ =>
    return if (Path.ofString path).isOverlong then .unreachable else .notFile

/-- What has to be read for the arguments: the standard input, and the answer about a file. -/
def gather (settings : Settings) (arguments : List String) : IO (String × FileAnswer) := do
  match CommandLine.readArguments settings none arguments with
  | (_, .error _) => return ("", .notFile)
  | (_, .ok argument) =>
      match CommandLine.SourceName.ofArgument argument with
      | .standardInput => return (← readAll (← IO.getStdin) "", .notFile)
      | .named text => return ("", ← probeFile text)

/-- Writes how the command line ended, and gives the exit code. -/
def finishWith (stderr : IO.FS.Stream) : CommandLine.Ending → IO UInt32
  | .code n => return UInt32.ofNat n
  | .complaint text => do
      stderr.putStrLn text
      return 1
  | .failure f => do
      stderr.putStrLn (f.message?.getD "the source cannot be run")
      return 1
  | .unreachableFile => do
      stderr.putStrLn "the file name is too long"
      return 1
  | .undecodableFile => do
      stderr.putStrLn "the file is not text"
      return 1

end Scriptlet

open Scriptlet in
/-- The program: runs one source and writes its value. -/
def main (arguments : List String) : IO UInt32 := do
  let settings : Settings :=
    ⟨← IO.getEnv "MONKEY_DEBUG_PY_TRACE", ← IO.getEnv "MONKEY_REPL_PROMPT",
      ← IO.getEnv "MONKEY_RECURSION_LIMIT"⟩
  let (stdin, answer) ← gather settings arguments
  let report := CommandLine.execute settings stdin (fun _ => answer) arguments
  (← IO.getStdout).putStr report.output.stdout
  let stderr ← IO.getStderr
  stderr.putStr report.output.stderr
  finishWith stderr report.ending
