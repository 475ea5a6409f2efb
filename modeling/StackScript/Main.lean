import StackScript.CommandLine.Answer

/-!
# The program

Reads the arguments, the script file, the input where it is needed and the filter of the journal, and
writes the answer.
-/

namespace StackScript.CommandLine

/-- What kept a file from being read. -/
def fileFault : IO.Error → FileFault
  | .noFileOrDirectory _ _ _ => .missing
  | .inappropriateType _ code _ => if code = 20 then .notDirectory else .directory
  | .invalidArgument _ code details => if code = 36 then .nameTooLong else .other details
  | e => .other e.toString

/-- Reads a text file. -/
def readText (path : String) : IO (Except FileFault String) := do
  try
    let bytes ← IO.FS.readBinFile path
    return match String.fromUTF8? bytes with
      | some text => .ok text
      | none => .error .notText
  catch e => return .error (fileFault e)

/-- Reads a stream to its end. -/
partial def readAll (stream : IO.FS.Stream) (read : String) : IO String := do
  let line ← stream.getLine
  if line.isEmpty then return read
  readAll stream (read ++ line)

/-- Whether a request asks for the input. -/
def Request.needsInput : Request → Bool
  | onFile .interact _ _ => true
  | _ => false

end StackScript.CommandLine

open StackScript StackScript.CommandLine in
/-- Answers the command line. -/
def main (args : List String) : IO UInt32 := do
  let filter := (← IO.getEnv "TUNGSTEN_LOG").bind LogLevel.ofFilter?
  let request := Request.ofArgs args
  let file ← match request.path? with
    | some path => readText path
    | none => pure (.error .missing)
  let input ← if request.needsInput then readAll (← IO.getStdin) "" else pure ""
  let response := request.answer filter file input
  (← IO.getStdout).putStr response.transcript.out
  (← IO.getStderr).putStr response.transcript.err
  return response.status.toUInt32
