import ScopeLisp.Eval.Interpreter

/-!
# Options

The evaluation options among the arguments of a command.  An option starts with
two hyphens; every other argument is left to the command.
-/

namespace ScopeLisp

/-- Why the options cannot be understood. -/
inductive OptionError where
  | invalidDepth (value : String)
  | unknown (option : String)
deriving DecidableEq

def OptionError.message : OptionError → String
  | .invalidDepth value => "invalid value for --max-depth: '" ++ value ++ "'"
  | .unknown option => "unknown option '" ++ option ++ "'"

structure EvalOptions where
  /-- How many evaluations may be nested, if it is given. -/
  maxDepth : Option Nat := none
deriving DecidableEq

namespace EvalOptions

/-!
# Reading the options

A depth is a natural number of ASCII digits with an optional plus sign.  When
several are given, the last one counts.
-/

def maxGivenDepth : Nat := 0xFFFFFFFFFFFFFFFF

def depth? (value : List Char) : Option Nat :=
  let digits := match value with
    | '+' :: rest => rest
    | _ => value
  if digits.all Char.isDigit && !digits.isEmpty then
    let depth := Nat.ofDigitChars 10 digits 0
    if depth ≤ maxGivenDepth then some depth else none
  else
    none

def afterStart? : (start text : List Char) → Option (List Char)
  | [], text => some text
  | _ :: _, [] => none
  | a :: start, b :: text => if a = b then afterStart? start text else none

/-- Separates the options from the other arguments.  The last depth given counts. -/
def ofArgs (options : EvalOptions) : List String → Except OptionError (EvalOptions × List String)
  | [] => .ok (options, [])
  | arg :: rest =>
      match afterStart? "--max-depth=".toList arg.toList with
      | some value =>
          match depth? value with
          | some depth => ofArgs { options with maxDepth := some depth } rest
          | none => .error (.invalidDepth (String.ofList value))
      | none =>
          if (afterStart? "--".toList arg.toList).isSome then
            .error (.unknown arg)
          else
            (ofArgs options rest).map fun (options, others) => (options, arg :: others)

def limit (options : EvalOptions) : Nat :=
  options.maxDepth.getD defaultLimit

def interpreter (options : EvalOptions) : Interpreter :=
  { limit := options.limit }

end EvalOptions
end ScopeLisp
