import ScopeLisp.Shell.Command

/-!
# The program

The only part that touches the outside world.  It reads the file that a command
names, or holds the dialogue line by line, and leaves everything else to the
command.
-/

namespace ScopeLisp
namespace Program

/-- The number of a system error, which may be reported with its sign turned. -/
def errorNumber (code : UInt32) : UInt32 :=
  if code < 0x80000000 then code else 0 - code

def fileError : IO.Error → FileError
  | .noFileOrDirectory .. => .notFound
  | .permissionDenied .. => .permissionDenied
  | .inappropriateType _ code _ =>
      if errorNumber code = 21 then .isDirectory else .notADirectory
  | error@(.invalidArgument _ code _) =>
      if errorNumber code = 36 then .nameTooLong else .system (toString error)
  | error => .system (toString error)

def fileText (path : String) : IO (Except FileError (List Char)) := do
  try
    let contents ← IO.FS.readBinFile path
    return FileError.decode contents.toList
  catch error =>
    return .error (fileError error)

def emit (outcome : Outcome) : IO UInt32 := do
  (← IO.getStdout).putStr outcome.out
  (← IO.getStderr).putStr outcome.err
  return UInt32.ofNat outcome.code

/-- The bytes of the next line with its newline, which are none at the end of the input. -/
partial def readLine (input : IO.FS.Stream) (read : List UInt8) : IO (List UInt8) := do
  match (← input.read 1).toList with
  | [] => return read.reverse
  | bytes =>
      if bytes.contains 0x0A then
        return (bytes ++ read).reverse
      else
        readLine input (bytes ++ read)

/-- Holds the dialogue with the user. -/
partial def dialogue (s : Session) : IO UInt32 := do
  let out ← IO.getStdout
  out.putStr Repl.prompt
  out.flush
  match Text.decodedLines (← readLine (← IO.getStdin) []) with
  | [] =>
      emit ⟨0, "\n", ""⟩
  | none :: _ =>
      emit ⟨1, "", Command.brokenLine Repl.invalidText⟩
  | some line :: _ =>
      let reply := Repl.reply s line
      let code ← emit ⟨0, reply.out, reply.err⟩
      if reply.ends then return code else dialogue reply.session

def perform (command : Command) : IO UInt32 := do
  match command with
  | .run path options =>
      emit (Command.withSource path (← fileText path) (Command.runProgram options))
  | .parse path =>
      emit (Command.withSource path (← fileText path) Command.showProgram)
  | .repl options => dialogue (.start options.interpreter)
  | command => emit (command.outcome .empty [])

end Program
end ScopeLisp

def main (args : List String) : IO UInt32 :=
  ScopeLisp.Program.perform (ScopeLisp.Command.ofArgs args)
