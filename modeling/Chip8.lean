import Chip8.Opcode
import Chip8.Instruction
import Chip8.Instruction.Pattern
import Chip8.Hex
import Chip8.Fault
import Chip8.Config
import Chip8.Font
import Chip8.Memory
import Chip8.Screen
import Chip8.CallStack
import Chip8.Registers
import Chip8.Arithmetic
import Chip8.Event
import Chip8.EventSource
import Chip8.EventSource.Log
import Chip8.Script
import Chip8.Keypad
import Chip8.DelayTimer
import Chip8.DelayTimer.Ticker
import Chip8.Machine
import Chip8.Machine.Execute
import Chip8.Moment
import Chip8.Machine.Run
import Chip8.PostMortem
import Chip8.Noise
import Chip8.Clock
import Chip8.Main
import Chip8.Proofs.Decoding
import Chip8.Proofs.Faults
import Chip8.Proofs.Agreement
import Chip8.Proofs.Turns
import Chip8.Proofs.Runs
import Chip8.Proofs.Quits
import Chip8.Proofs.Calls
import Chip8.Proofs.Reached
import Chip8.Proofs.Drawing
import Chip8.Proofs.History
import Chip8.Proofs.Ticking
import Chip8.Proofs.Footprint
import Chip8.Proofs.Hidden
import Chip8.Proofs.Glyphs
import Chip8.Proofs.Directions
import Chip8.Proofs.Flags
import Chip8.Proofs.Layers
import Chip8.Proofs.Sprites
import Chip8.Proofs.Dispatch
import Chip8.Proofs.LitPixels
import Chip8.Proofs.Saving
import Chip8.Proofs.Digits
import Chip8.Proofs.Waiting
import Chip8.Proofs.Scripted
import Chip8.Proofs.Latest
import Chip8.Proofs.Nesting
import Chip8.Proofs.Chance
import Chip8.Proofs.Reading
