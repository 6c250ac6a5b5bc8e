import ScopeLisp.Shell.Files
import ScopeLisp.Shell.Options
import ScopeLisp.Shell.Repl

/-!
# The command line

The arguments of the program name a command.  A command is carried out on the
text of a file or on the lines of the input, and its outcome is an exit code
and what is written to the two streams.
-/

namespace ScopeLisp

inductive Rejection where
  | options (error : OptionError)
  | missingProgram
  | missingSource
  | unknown (command : String)

/-- What the arguments ask for. -/
inductive Command where
  | help
  | version
  | run (path : String) (options : EvalOptions)
  | parse (path : String)
  | repl (options : EvalOptions)
  | rejected (rejection : Rejection)

/-- An exit code and the text written to each stream. -/
structure Outcome where
  code : Nat
  out : String
  err : String
deriving DecidableEq

/-!
# Texts of the program

A rejection writes a message to the error stream.  After an unknown command the
usage is written as well.
-/

def usage : String := String.intercalate "\n"
  ["LispGen interpreter",
   "",
   "Usage: lispgen <command> [options]",
   "",
   "Commands:",
   "  run <file.lisp>      Evaluate a program and print its last value",
   "  repl                 Start an interactive session (^exit to quit)",
   "  parse <file.lisp>    Parse and display the expression tree",
   "  help                 Show this help message",
   "  version              Show version information",
   "",
   "Options (run, repl):",
   "  --max-depth=<N>      Nesting limit before evaluation fails (default: 10000)",
   "",
   "Environment:",
   "  RUST_LOG             Enable tracing output (e.g. RUST_LOG=lispgen_eval=debug)",
   "",
   "Examples:",
   "  lispgen run program.lisp",
   "  lispgen run program.lisp --max-depth=500",
   "  lispgen repl",
   "  lispgen parse program.lisp",
   ""]

def versionLine : String := "LispGen 0.1.0\n"

namespace Rejection

def outcome : Rejection → Outcome
  | .options error => ⟨1, "", "error: " ++ error.message ++ "\n"⟩
  | .missingProgram =>
      ⟨1, "", "error: missing file path\nUsage: lispgen run <file.lisp> [--max-depth=N]\n"⟩
  | .missingSource => ⟨1, "", "Usage: lispgen parse <file.lisp>\n"⟩
  | .unknown command => ⟨1, usage, "Unknown command: " ++ command ++ "\n\n"⟩

end Rejection

namespace Command

/-!
# From arguments to a command

A path names a program by its extension.
-/

def isProgramPath (path : String) : Bool :=
  (Path.extension? path.toList).any fun extension =>
    extension.map Char.toLower == "lisp".toList

def ofArgs : List String → Command
  | [] => .help
  | "run" :: args =>
      match EvalOptions.ofArgs {} args with
      | .error error => .rejected (.options error)
      | .ok (_, []) => .rejected .missingProgram
      | .ok (options, path :: _) => .run path options
  | "repl" :: args =>
      match EvalOptions.ofArgs {} args with
      | .error error => .rejected (.options error)
      | .ok (options, _) => .repl options
  | "parse" :: args =>
      match args with
      | [] => .rejected .missingSource
      | path :: _ => .parse path
  | command :: _ =>
      if ["help", "--help", "-h"].contains command then .help
      else if ["version", "--version", "-V"].contains command then .version
      else if isProgramPath command then .run command {}
      else .rejected (.unknown command)

/-!
# Carrying out a command

A program is evaluated to its last value, or shown with one line for each
expression.  A dialogue takes its lines from the input.
-/

def runProgram (options : EvalOptions) (source : List Char) : Outcome :=
  match ((Session.start options.interpreter).evalSource source).1 with
  | .ok value => ⟨0, value.toText ++ "\n", ""⟩
  | .error failure => ⟨1, "", failure.report⟩

def listing : (number : Nat) → List Expr → String
  | _, [] => ""
  | number, e :: rest =>
      "[" ++ number.repr ++ "] " ++ e.kindName ++ ": " ++ e.toText ++ "\n" ++
        listing (number + 1) rest

def showProgram (source : List Char) : Outcome :=
  match Source.parseProgram source with
  | .ok program =>
      ⟨0, listing 0 program ++ "\n" ++ program.length.repr ++ " expression(s)\n", ""⟩
  | .error error => ⟨1, "", (Failure.reading error).report⟩

def unreadable (path : String) (error : FileError) : Outcome :=
  ⟨1, "", error.message path ++ "\n"⟩

def withSource (path : String) (source : Except FileError (List Char))
    (use : List Char → Outcome) : Outcome :=
  match source with
  | .ok source => use source
  | .error error => unreadable path error

def brokenLine (reason : String) : String :=
  "error: " ++ reason ++ "\n"

def runRepl (options : EvalOptions) (lines : List (Option (List Char))) : Outcome :=
  let transcript := Repl.converse (.start options.interpreter) lines
  match transcript.broken with
  | none => ⟨0, transcript.out, transcript.err⟩
  | some reason => ⟨1, transcript.out, transcript.err ++ brokenLine reason⟩

def outcome (files : FileTree) (input : List UInt8) : Command → Outcome
  | .help => ⟨0, usage, ""⟩
  | .version => ⟨0, versionLine, ""⟩
  | .run path options => withSource path (files.text path) (runProgram options)
  | .parse path => withSource path (files.text path) showProgram
  | .repl options => runRepl options (Text.decodedLines input)
  | .rejected rejection => rejection.outcome

end Command
end ScopeLisp
