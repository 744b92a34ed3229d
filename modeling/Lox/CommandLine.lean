import Lox.Scanner
import Lox.Session
import Lox.Syntax.PrefixForm
import Lox.Text.Utf8
import Lox.Token.Json

/-!
# The command line

What the program does with its arguments, its files and its input, as a function of them: the text
it prints, the text it reports, and its exit status. The prompt is given line by line, so that a
terminal can show each answer at once.
-/

namespace Lox

namespace CommandLine

/-- A depth of evaluation that no program reaches within its lifetime. -/
def fuel : Nat := 1000000000000000

def version : String := "rlox 0.1.0"

/-- What the program is asked to do. -/
inductive Command where
  | version
  | tokenize (file : String) (json : Bool)
  | parse (file : String)
  | evaluate (file : String)
  | run (file : String)
  | repl
  deriving DecidableEq, Repr

/-- The command of the arguments, once the flag for logging is taken out. -/
def Command.ofArguments? (arguments : List String) : Option Command :=
  if arguments.head? = some "--version" then some .version
  else match arguments.filter (· ≠ "--json") with
    | ["tokenize", file] => some (.tokenize file (arguments.contains "--json"))
    | ["parse", file] => some (.parse file)
    | ["evaluate", file] => some (.evaluate file)
    | ["run", file] => some (.run file)
    | ["repl"] => some .repl
    | _ => none

/-- What a command has printed and reported when it ends. -/
structure Outcome where
  exitCode : UInt32
  output : String
  errors : String
  deriving DecidableEq, Repr

/-- The text that a sink has taken. -/
def printed (s : Session) : String := Utf8.decodeLossy s.machine.sink.written.toList

def line (s : String) : String := s ++ "\n"

/-! ### Files -/

/-- Why there is no source in a file. -/
inductive FileError where
  | missing (file : String)
  | notText (cause : Utf8.Error)
  deriving DecidableEq, Repr

def FileError.message : FileError → String
  | .missing file =>
    "Error: Failed to open file " ++ Json.quote file ++
      "\n\nCaused by:\n    No such file or directory (os error 2)"
  | .notText cause =>
    "Error: Source is not valid UTF-8\n\nCaused by:\n    " ++ cause.message

/-- The source in a file, given what the file holds if it is there. -/
def source (file : String) (content : Option (List UInt8)) : Except FileError String :=
  match content with
  | none => .error (.missing file)
  | some bytes =>
    match Utf8.decode bytes with
    | .ok text => .ok text
    | .error cause => .error (.notText cause)

/-! ### Commands on a source -/

/-- The listing of a source as the scanner gives it. A scanner that breaks off would end the program
without a listing. -/
def tokenize (json : Bool) (text : String) : Outcome :=
  let show_ (t : Token) : String := if json then t.toJson else t.describe
  match Scanner.items? text with
  | none => ⟨101, "", ""⟩
  | some items =>
    let problems := items.filterMap Source.Item.diagnostic?
    { exitCode := if problems = [] then 0 else 65
      output := String.join ((items.filterMap Source.Item.token?).map fun t => line (show_ t))
      errors := String.join (problems.map fun d => line d.message) }

def failed (printed : String) (failure : Failure) : Outcome :=
  ⟨failure.exitCode, printed, line failure.message⟩

def parse (text : String) : Outcome :=
  match (Source.soleExpression text 0).toExcept with
  | .ok e => ⟨0, line e.prefixForm, ""⟩
  | .error diagnostics => failed "" (.rejected diagnostics)

def evaluate (clock : Nat → Float) (text : String) : Outcome :=
  match (Session.start .unlimited clock).evaluate fuel text with
  | (.ok value, s) => ⟨0, printed s ++ line (s.text value), ""⟩
  | (.error failure, s) => failed (printed s) failure

def run (clock : Nat → Float) (text : String) : Outcome :=
  match (Session.start .unlimited clock).run fuel text with
  | (.ok _, s) => ⟨0, printed s, ""⟩
  | (.error failure, s) => failed (printed s) failure

/-! ### The prompt -/

def prompt : String := "> "

/-- What a line at the prompt has printed and reported, and the session after it. -/
structure Reply where
  session : Session
  output : String
  errors : String

/-- Answers a line. A blank line does nothing; the value of a line is shown unless it is `nil`. -/
def reply (s : Session) (text : String) : Reply :=
  if text.toList.all Text.isBlank then ⟨s, "", ""⟩
  else
    let (result, s) := (s.withSink .unlimited).run fuel text
    match result with
    | .ok .nil => ⟨s, printed s, ""⟩
    | .ok value => ⟨s, printed s ++ line (s.text value), ""⟩
    | .error failure => ⟨s, printed s, line failure.message⟩

/-- The lines of an input, each with the line end that it has. -/
def linesFrom (read : List Char) : List Char → List String
  | [] => if read = [] then [] else [String.ofList read.reverse]
  | '\n' :: rest => String.ofList ('\n' :: read).reverse :: linesFrom [] rest
  | c :: rest => linesFrom (c :: read) rest

/-- Answers lines one after another, with the prompt before each, and ends at the last prompt. -/
def answer (s : Session) : List String → String × String
  | [] => (line prompt, "")
  | text :: rest =>
    let r := reply s text
    let (output, errors) := answer r.session rest
    (prompt ++ r.output ++ output, r.errors ++ errors)

def repl (clock : Nat → Float) (input : String) : Outcome :=
  let (output, errors) := answer (Session.start .unlimited clock) (linesFrom [] input.toList)
  ⟨0, output, errors⟩

/-! ### Whole runs of the program -/

/-- The file that a command reads. -/
def Command.file? : Command → Option String
  | .tokenize file _ | .parse file | .evaluate file | .run file => some file
  | .version | .repl => none

/-- The outcome of a command on the source in a file. -/
def onSource (file : String) (content : Option (List UInt8)) (action : String → Outcome) :
    Outcome :=
  match source file content with
  | .ok text => action text
  | .error e => ⟨1, "", line e.message⟩

/-- The outcome of a command, given what its file holds and the input. -/
def outcome (clock : Nat → Float) (content : Option (List UInt8)) (input : String) :
    Command → Outcome
  | .version => ⟨0, line version, ""⟩
  | .repl => repl clock input
  | .tokenize file json => onSource file content (tokenize json)
  | .parse file => onSource file content parse
  | .evaluate file => onSource file content (evaluate clock)
  | .run file => onSource file content (run clock)

/-- The flag that asks for a log. -/
def logFlag : String := "--log"

/-- Whether a run with these arguments keeps a log. Asking for the version ends too early. -/
def logs (arguments : List String) : Bool :=
  arguments.contains logFlag &&
    Command.ofArguments? (arguments.filter (· ≠ logFlag)) ≠ some .version

/-- The command of the arguments of the program. -/
def command? (arguments : List String) : Option Command :=
  Command.ofArguments? (arguments.filter (· ≠ logFlag))

end CommandLine

end Lox
