import Chip8.Clock
import Chip8.Machine.Run
import Chip8.Options
import Chip8.Picture
import Chip8.PostMortem
import Chip8.Script

/-!
# The program

Runs a program without a window. Standard input holds the keys to strike; after the last of them the
host quits. Each new frame goes to standard output as a bitmap. A fault goes to the error output with
the post-mortem text.
-/

namespace Chip8

/-- Keeps the last screen and never fails. -/
def keepScreen : Renderer (Option Screen) := fun screen _ => .ok () (some screen)

/-- Runs cycle by cycle, and shows a screen that differs from the one shown before. -/
partial def play (config : Config) (clock : Clock) (m : Machine Script) (shown : Option Screen) :
    IO UInt32 := do
  let s := m.run keepScreen shown clock.moment 1
  match s.renderer with
  | some screen =>
    unless s.renderer = shown do IO.print (screen.picture config.scale)
  | none => pure ()
  match s.status with
  | .quit => return 0
  | .failed fault =>
    IO.eprintln fault.message
    IO.eprintln s.machine.dump
    return 1
  | .running =>
    IO.sleep (UInt32.ofNat (config.cycleDelay / 1000))
    play config ((clock.after 1).advance clock.pause) s.machine s.renderer

/-- The bytes of a file, or the reason why there are none. -/
def readProgram (path : String) : IO (Except Fault (List UInt8)) := do
  try
    return .ok (← IO.FS.readBinFile path).toList
  catch e => return .error (.io (toString e))

end Chip8

open Chip8 in
/-- Reads the command line, the program and the keys, and plays. -/
def main (words : List String) : IO UInt32 := do
  match Options.parse words with
  | .error problem =>
    IO.eprintln problem.message
    IO.eprintln Options.usage
    return 2
  | .ok options =>
    let content ← readProgram options.program
    let keys := (← (← IO.getStdin).readToEnd).toList.filter (!·.isWhitespace)
    match (Machine.new (Script.typed keys)).loadFile content with
    | .error fault _ =>
      IO.eprintln fault.message
      return 1
    | .ok () m => play options.config (Clock.start options.config) m none
