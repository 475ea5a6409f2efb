import StackScript.CommandLine.Console
import StackScript.CommandLine.DemoHost
import StackScript.CommandLine.Request
import StackScript.Text.Backspace
import StackScript.Text.Blank

/-!
# Answers

How requests are answered, given the script file, the input and the filter of the journal. Nothing
here reads or writes anything by itself.
-/

namespace StackScript.CommandLine

/-- The version of the language. -/
def languageVersion : String := "0.1.0"

/-! ### Help -/

/-- The text of the general help. -/
def helpText : String := String.join
  ["Tungsten\n",
    "A small embeddable scripting language\n",
    "Version ", languageVersion, "\n\n",
    "USAGE:\n",
    "  tungsten run <file.tn> [function] [args...]   Call a function (default main)\n",
    "  tungsten check <file.tn>                      Compile and report errors\n",
    "  tungsten disasm <file.tn>                     Print the compiled bytecode\n",
    "  tungsten repl <file.tn>                       Call functions interactively\n",
    "  tungsten help                                 Show this help message\n",
    "  tungsten version                              Show version\n\n",
    "OPTIONS:\n",
    "  --steps <n>              Abort after n instructions\n",
    "  TUNGSTEN_LOG=<level>     Log level: error, warn, info, debug, trace\n\n",
    "HOST TYPES:\n",
    "  Console:Log(value)       Print a value\n",
    "  Math:Max(a, b)           Also Min, Abs, Sqrt and Math:PI\n",
    "  new Range(start, end)    Integer range for `for` loops\n"]

/-- The text of the help on calling functions interactively. -/
def interactiveHelp : String := String.join
  ["REPL Commands:\n",
    "  <function> [args...]   Call a script function\n",
    "  :disasm                Show the compiled bytecode\n",
    "  :globals               Show global values\n",
    "  exit, quit             Exit the REPL\n",
    "  help                   Show this help\n\n",
    "Examples:\n",
    "  main\n",
    "  add 2 3\n",
    "  greet \"world\"\n"]

/-! ### Files -/

/-- Why a file cannot be read. -/
inductive FileFault where
  | missing
  | directory
  | notDirectory
  | nameTooLong
  /-- The file is not encoded as text is. -/
  | notText
  | other (description : String)
  deriving DecidableEq

/-- How the system words a file fault. -/
def FileFault.message : FileFault → String
  | missing => "No such file or directory (os error 2)"
  | directory => "Is a directory (os error 21)"
  | notDirectory => "Not a directory (os error 20)"
  | nameTooLong => "File name too long (os error 36)"
  | notText => "stream did not contain valid UTF-8"
  | other description => description

/-! ### Scripts -/

/-- A text without the quotation marks around it. -/
def stripQuotes (s : String) : String :=
  let isQuote (c : Char) : Bool := c == '"'
  let rest := s.toList.dropWhile isQuote
  String.ofList (rest.reverse.dropWhile isQuote).reverse

/-- The value that an argument stands for: an integer, another number, a truth value, null, or else
a text. -/
def argValue (arg : String) : Value :=
  match Decimal.readInt32? arg.toList, Decimal.readFloat32? arg.toList with
  | some n, _ => .int n
  | none, some x => .float x
  | none, none =>
    match arg with
    | "true" => .bool true
    | "false" => .bool false
    | "null" => .null
    | text => .string (stripQuotes text)

/-- Writes out what the script has printed. -/
def release (s : Session Registry) : Console (Session Registry) := do
  s.world.printed.forM Console.say
  return s.withWorld { s.world with printed := #[] }

/-- Takes over the outcome of a run: what was printed, and a failure for the journal. -/
def takeOver (filter : Option LogLevel) (outcome : Option (Session.Outcome Registry)) :
    Console (Session.Outcome Registry) := do
  let (result, s) ← Console.finished outcome
  let s ← release s
  Console.tell filter (Session.failureEntries result)
  return (result, s)

/-- Calls a function of a script. -/
def call (filter : Option LogLevel) (s : Session Registry) (name : String) (args : List Value) :
    Console (Session.Outcome Registry) := do
  Console.tell filter (s.engine.callEntries filter patience s.machine name args)
  takeOver filter (s.call patience name args)

/-- Compiles a source text, or shows the faults in it. -/
def compileSource (filter : Option LogLevel) (source : String) :
    Console (Except Diagnostics Compiled) := do
  let reading := read source
  let outcome := reading.compile true
  Console.tell filter (reading.entries outcome)
  if let .error d := outcome then Console.complain d.render
  return outcome

/-- Starts a session over a source text. -/
def loadScript (filter : Option LogLevel) (limits : Limits) (source : String) :
    Console (Session Registry) := do
  match ← compileSource filter source with
  | .error _ => throw ()
  | .ok c =>
    let s := Session.ofCompiled c limits Registry.bridge .empty demoHost
    Console.tell filter (s.engine.callEntries filter patience s.machine initializerName [])
    let (result, s) ← takeOver filter (s.prepare patience)
    match result with
    | .error _ => Console.refuse s.diagnostics.render
    | .ok _ =>
      Console.tell filter #[s.readyEntry]
      return s

/-- Calls a function of a script and shows its result, unless that is null. -/
def runScript (filter : Option LogLevel) (limits : Limits) (source function : String)
    (args : List String) : Console Unit := do
  let s ← loadScript filter limits source
  let (result, s) ← call filter s function (args.map argValue)
  match result with
  | .error r => Console.refuse r.render
  | .ok .null => return
  | .ok value => Console.say (s.world.heap.display value)

/-- Compiles a script and tells how large it is. -/
def checkScript (filter : Option LogLevel) (source : String) : Console Unit := do
  match ← compileSource filter source with
  | .ok c =>
    Console.say ("ok: " ++ toString c.program.userFunctions.length ++ " function(s), "
      ++ toString c.program.globals.length ++ " global(s)")
  | .error d => Console.refuse ("failed: " ++ toString d.errorCount ++ " error(s)")

/-- Compiles a script and shows its code. -/
def disassembleScript (filter : Option LogLevel) (source : String) : Console Unit := do
  match ← compileSource filter source with
  | .ok c => Console.write c.program.listing
  | .error _ => throw ()

/-! ### Interaction -/

/-- Calls the function that a line names, with the values that follow. -/
def callLine (filter : Option LogLevel) (s : Session Registry) (line : String) :
    Console (Session Registry) := do
  match Text.words line with
  | [] => return s
  | function :: args =>
    let (result, s) ← call filter s function (args.map argValue)
    match result with
    | .error r => Console.complain r.render
    | .ok .null => pure ()
    | .ok value => Console.say ("=> " ++ s.world.heap.display value)
    return s

/-- Shows the globals with their values. -/
def showGlobals (s : Session Registry) : Console Unit :=
  s.globals.names.forM fun name =>
    Console.say ("  " ++ name ++ " = "
      ++ s.world.heap.display ((s.globals.get? name).getD .null))

/-- Answers line by line, up to a line that ends the interaction or the end of the input. -/
def interact (filter : Option LogLevel) (s : Session Registry) :
    (lines : List String) → Console Unit
  | [] => do
    Console.tell filter #[⟨.debug, "stdin is not a tty"⟩]
    Console.say "Goodbye!"
  | typed :: lines => do
    Console.tell filter #[⟨.debug, "stdin is not a tty"⟩]
    match Text.trim (Text.typedLine typed) with
    | "exit" | "quit" => Console.say "Goodbye!"
    | "help" =>
      Console.write interactiveHelp
      interact filter s lines
    | ":disasm" =>
      Console.write s.engine.program.listing
      interact filter s lines
    | ":globals" =>
      showGlobals s
      interact filter s lines
    | line => interact filter (← callLine filter s line) lines

/-- Starts a session and answers what the input asks for. -/
def interactWith (filter : Option LogLevel) (limits : Limits) (path source input : String) :
    Console Unit := do
  let s ← loadScript filter limits source
  Console.say ("Tungsten " ++ languageVersion ++ " - " ++ path)
  Console.say ("Functions: " ++ String.intercalate ", " s.functionNames)
  Console.say "Type exit to exit, help for help\n"
  interact filter s (Text.lines input)

/-! ### Requests -/

/-- Answers a request on a script file. -/
def answerOnFile (filter : Option LogLevel) (task : Task) (path : String) (limits : Limits)
    (file : Except FileFault String) (input : String) : Console Unit := do
  match file with
  | .error fault =>
    Console.refuse ("error: cannot read file " ++ Fault.quote path ++ ": " ++ fault.message)
  | .ok source =>
    match task with
    | .run function args => runScript filter limits source function args
    | .check => checkScript filter source
    | .disassemble => disassembleScript filter source
    | .interact => interactWith filter limits path source input

/-- Answers a refused command line. -/
def answerRefused : Refusal → Console Unit
  | .stepsWithoutNumber => Console.refuse "error: --steps needs a number"
  | .missingFile command => do
    Console.complain "error: missing file argument"
    Console.refuse ("Usage: tungsten " ++ command ++ " <file.tn>")
  | .unknownCommand command => do
    Console.write helpText
    Console.refuse ("error: unknown command " ++ Fault.quote command)

/-- Answers a request, given the contents of its file and the input. -/
def Request.answer (filter : Option LogLevel) (request : Request) (file : Except FileFault String)
    (input : String) : Response :=
  Console.respond <|
    match request with
    | .help => Console.write helpText
    | .version => Console.say ("Tungsten " ++ languageVersion)
    | .onFile task path limits => answerOnFile filter task path limits file input
    | .refused refusal => answerRefused refusal

end StackScript.CommandLine
