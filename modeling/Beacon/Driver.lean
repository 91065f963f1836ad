import Beacon.Driver.Program
import Beacon.Journal
import Beacon.Sink

/-!
# Attaching the light

The light is attached by a command: a program and its arguments, or `-` alone for printing the frame
lines.
-/

namespace Beacon.Driver

/-- A light that has been attached. -/
inductive Light
  | printed
  | driven (command : List String) (program : Program)

/-- The failure of a command without a program. -/
def emptyCommand : IoError := ⟨.invalidInput, "empty driver command"⟩

/-- The failure of a command whose program does not exist. -/
def noProgram : IoError := ⟨.notFound, "No such file or directory (os error 2)"⟩

/-- Starts the program of a command. -/
def spawn (command : List String) : Except IoError Light :=
  if command = [] then .error emptyCommand
  else match program? command with
    | none => .error noProgram
    | some program => .ok (.driven command program)

/-- Attaches a light. -/
def attach (command : List String) : Except IoError Light :=
  if command = ["-"] then .ok .printed else spawn command

/-- What is noted when a light has been attached. -/
def Light.entry : Light → Entry
  | printed => ⟨.info, "Writing frames to stdout"⟩
  | driven command _ => ⟨.info, "Started driver `" ++ " ".intercalate command ++ "`"⟩

/-- What a light makes of the bytes written to it: a printed light shows them as they are. -/
def Light.run : Light → Program
  | printed => Program.filter id
  | driven _ program => program

end Beacon.Driver
