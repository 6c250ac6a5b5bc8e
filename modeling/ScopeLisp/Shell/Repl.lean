import ScopeLisp.Session
import ScopeLisp.Text.Blank
import ScopeLisp.Text.Lines

/-!
# The interactive dialogue

Each line is trimmed and evaluated as a program in one session, and its value
or failure is written out.  A line that starts with a caret is a command to the
dialogue itself.  Blank lines are passed over.
-/

namespace ScopeLisp

inductive ReplCommand where
  | exit
  | unknown (name : List Char)
deriving DecidableEq

def ReplCommand.ofLine? : List Char → Option ReplCommand
  | '^' :: rest =>
      let name := Text.trim rest
      if name = "exit".toList then some .exit else some (.unknown name)
  | _ => none

namespace Repl

def prompt : String := "> "

/-!
# Replies and transcripts

A reply is what one line brings about, and a transcript is what the whole
dialogue wrote.  A line that is not UTF-8 breaks the dialogue off.
-/

structure Reply where
  session : Session
  out : String
  err : String
  /-- Whether the dialogue ends here. -/
  ends : Bool

def reply (s : Session) (line : List Char) : Reply :=
  let line := Text.trim line
  if line.isEmpty then
    ⟨s, "", "", false⟩
  else
    match ReplCommand.ofLine? line with
    | some .exit => ⟨s, "", "", true⟩
    | some (.unknown name) => ⟨s, "", "unknown command: ^" ++ String.ofList name ++ "\n", false⟩
    | none =>
        match s.evalSource line with
        | (.ok value, s) => ⟨s, value.toText ++ "\n", "", false⟩
        | (.error failure, s) => ⟨s, "", failure.report, false⟩

/-- A dialogue after the fact: what was written, and why reading broke off if it did. -/
structure Transcript where
  session : Session
  out : String
  err : String
  broken : Option String

def invalidText : String := "stream did not contain valid UTF-8"

/-- The whole dialogue over lines, where a line that is not text is given as none. -/
def converse (s : Session) : List (Option (List Char)) → Transcript
  | [] => ⟨s, prompt ++ "\n", "", none⟩
  | none :: _ => ⟨s, prompt, "", some invalidText⟩
  | some line :: rest =>
      let answer := reply s line
      if answer.ends then
        ⟨answer.session, prompt ++ answer.out, answer.err, none⟩
      else
        let later := converse answer.session rest
        ⟨later.session, prompt ++ answer.out ++ later.out, answer.err ++ later.err, later.broken⟩

end Repl
end ScopeLisp
