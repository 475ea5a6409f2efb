import StackScript.Decimal.Reading
import StackScript.Machine.Step

/-!
# Requests

What the arguments of the command line ask for. Options may stand anywhere among them and are taken
out first.
-/

namespace StackScript.CommandLine

/-- What to do with a script file. -/
inductive Task where
  /-- Call a function with arguments. -/
  | run (function : String) (args : List String)
  /-- Compile only. -/
  | check
  /-- Show the code. -/
  | disassemble
  /-- Call the functions that are asked for line by line. -/
  | interact
  deriving DecidableEq

/-- Why a command line is refused. -/
inductive Refusal where
  | stepsWithoutNumber
  | missingFile (command : String)
  | unknownCommand (command : String)
  deriving DecidableEq

/-- What a command line asks for. -/
inductive Request where
  | help
  | version
  | onFile (task : Task) (path : String) (limits : Limits)
  | refused (refusal : Refusal)
  deriving DecidableEq

/-- Takes the options out of the arguments. Of several step limits the last one counts. -/
def splitOptions (limits : Limits) : List String → Option (List String × Limits)
  | [] => some ([], limits)
  | ["--steps"] => none
  | arg :: next :: rest =>
    if arg = "--steps" then
      match Decimal.readCount? next.toList with
      | some count => splitOptions { limits with steps := some count } rest
      | none => none
    else (splitOptions limits (next :: rest)).map fun (others, limits) => (arg :: others, limits)
  | [arg] => some ([arg], limits)

/-- A request on the file that is named next. -/
def requestOnFile (command : String) (limits : Limits) (task : List String → Task) :
    List String → Request
  | [] => .refused (.missingFile command)
  | path :: rest => .onFile (task rest) path limits

/-- The call that the arguments after the file ask for. -/
def runTask : List String → Task
  | [] => .run "main" []
  | function :: args => .run function args

/-- Whether a command is the path of a script. -/
def isScriptPath (command : String) : Bool :=
  ".tn".toList.isSuffixOf command.toList

/-- What the arguments without options ask for. -/
def ofCommand (limits : Limits) : List String → Request
  | [] => .help
  | command :: rest =>
    match command with
    | "run" => requestOnFile command limits runTask rest
    | "check" => requestOnFile command limits (fun _ => .check) rest
    | "disasm" => requestOnFile command limits (fun _ => .disassemble) rest
    | "repl" => requestOnFile command limits (fun _ => .interact) rest
    | "help" | "--help" | "-h" => .help
    | "version" | "--version" | "-v" => .version
    | path =>
      if isScriptPath path then .onFile (.run "main" []) path limits
      else .refused (.unknownCommand path)

/-- What the arguments ask for. -/
def Request.ofArgs (args : List String) : Request :=
  match splitOptions .standard args with
  | none => .refused .stepsWithoutNumber
  | some (positional, limits) => ofCommand limits positional

/-- The file that a request is about. -/
def Request.path? : Request → Option String
  | onFile _ path _ => some path
  | _ => none

end StackScript.CommandLine
