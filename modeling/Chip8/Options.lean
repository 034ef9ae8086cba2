import Chip8.Config

/-!
# The command line

* `Options`: the program to run and the settings.
* `Options.Problem`: why a command line is refused, and `Options.Problem.message`, its text.
* `Options.parse`: reads a command line; a later setting wins over an earlier one.
-/

namespace Chip8

/-- What a command line asks for. -/
structure Options where
  program : String
  config : Config
  deriving DecidableEq, Repr

namespace Options

/-- Why a command line is refused. -/
inductive Problem
  | unknownOption (option : String)
  | missingNumber (option : String)
  | noNumber (option value : String)
  | missingProgram
  | secondProgram (path : String)
  deriving DecidableEq, Repr

/-- The text of a problem. -/
def Problem.message : Problem → String
  | unknownOption option => "unknown option " ++ option
  | missingNumber option => "a number is needed after " ++ option
  | noNumber option value => value ++ " after " ++ option ++ " is not a number"
  | missingProgram => "a program is needed"
  | secondProgram path => "one program is enough, but there is also " ++ path

/-- How the program is called. -/
def usage : String :=
  "usage: chip8 PROGRAM [-s|--scale PIXELS] [-c|--cycle-delay-us MICROSECONDS]"

/-- The setting that an option changes. -/
def setting? (option : String) : Option (Config → Nat → Config) :=
  if option = "-s" ∨ option = "--scale" then some fun c n => { c with scale := n }
  else if option = "-c" ∨ option = "--cycle-delay-us" then some fun c n => { c with cycleDelay := n }
  else none

/-- Reads the rest of a command line after the settings and the program found so far. -/
def parseFrom (config : Config) (program? : Option String) : List String → Except Problem Options
  | [] =>
    match program? with
    | some program => .ok ⟨program, config⟩
    | none => .error .missingProgram
  | word :: words =>
    match setting? word, words with
    | some change, number :: words =>
      match number.toNat? with
      | some n => parseFrom (change config n) program? words
      | none => .error (.noNumber word number)
    | some _, [] => .error (.missingNumber word)
    | none, words =>
      if word.startsWith "-" then .error (.unknownOption word)
      else if program?.isSome then .error (.secondProgram word)
      else parseFrom config (some word) words

/-- Reads a command line. -/
def parse (words : List String) : Except Problem Options := parseFrom {} none words

end Options

end Chip8
