import Lox.CommandLine

/-!
# The program

Reads files and lines and prints what `CommandLine` answers.
-/

namespace Lox.CommandLine

/-- A clock that starts at the given microsecond and moves on by one with each reading. -/
def clockFrom (micros : Nat) (reading : Nat) : Float := (micros + reading).toFloat / 1000000

/-- Answers lines from the standard input one at a time, until it ends. -/
partial def interact (session : Session) : IO UInt32 := do
  IO.print prompt
  (← IO.getStdout).flush
  let text ← (← IO.getStdin).getLine
  if text.isEmpty then
    IO.println ""
    return 0
  let r := reply session text
  IO.print r.output
  IO.eprint r.errors
  interact r.session

/-- What a file holds, if it can be read. -/
def contentOf (file : String) : IO (Option (List UInt8)) := do
  try return some (← IO.FS.readBinFile file).toList
  catch _ => return none

/-- Carries a command out and gives its exit status. -/
def perform (clock : Nat → Float) (command : Command) : IO UInt32 := do
  match command with
  | .repl => interact (Session.start .unlimited clock)
  | _ =>
    let content ← match command.file? with
      | some file => contentOf file
      | none => pure none
    let o := outcome clock content "" command
    IO.print o.output
    IO.eprint o.errors
    return o.exitCode

end Lox.CommandLine

open Lox CommandLine

def main (arguments : List String) : IO UInt32 := do
  let clock := clockFrom ((← IO.monoMsNow) * 1000)
  match command? arguments with
  | none =>
    IO.eprintln "usage: rlox [--log] (tokenize [--json] | parse | evaluate | run) FILE | repl"
    return 2
  | some command =>
    if logs arguments then IO.FS.writeFile "app.log" ""
    perform clock command
