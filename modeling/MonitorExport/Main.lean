import MonitorExport.CommandLine.Run
import Std.Time.DateTime.Timestamp

/-!
The program on a real machine: its files, its environment, its clock and its outputs. Connections are not
opened: there is no reply to wait for.
-/

namespace MonitorExport.CommandLine

/-- The number of the fault behind a failure, where the machine gives one. -/
def faultNumber? : IO.Error → Option Nat
  | .alreadyExists _ code _ | .otherError code _ | .resourceBusy code _ | .resourceVanished code _
  | .unsupportedOperation code _ | .hardwareFault code _ | .unsatisfiedConstraints code _
  | .illegalOperation code _ | .protocolError code _ | .timeExpired code _ | .interrupted _ code _
  | .noFileOrDirectory _ code _ | .invalidArgument _ code _ | .permissionDenied _ code _
  | .resourceExhausted _ code _ | .inappropriateType _ code _ | .noSuchThing _ code _ =>
    some code.toInt32.toInt.natAbs
  | .unexpectedEof | .userError _ => none

/-- The reason why a file operation failed, with the number of the fault. -/
def faultMessage (e : IO.Error) : String :=
  match faultNumber? e with
  | some 2 => FileFault.missing.message
  | some 17 => FileFault.occupied.message
  | some 20 => FileFault.notDirectory.message
  | some 21 => FileFault.isDirectory.message
  | some n => toString e ++ " (os error " ++ toString n ++ ")"
  | none => toString e

/-- The result of an action, or the reason why it failed. -/
def attempted {α : Type} (action : IO α) : IO (Except String α) := do
  return (← action.toBaseIO).mapError faultMessage

/-- The text in a file. -/
def readText (path : String) : IO (Except String String) := do
  match ← attempted (IO.FS.readBinFile path) with
  | .error reason => return .error reason
  | .ok bytes =>
    match String.fromUTF8? bytes with
    | some text => return .ok text
    | none => return .error "stream did not contain valid UTF-8"

/-- Whether there is something at a path: what can not be read for another reason than that it is
missing is there. -/
def isPresent (path : String) : IO Bool := do
  match ← (IO.FS.readBinFile path).toBaseIO with
  | .ok _ => return true
  | .error e =>
    match faultNumber? e with
    | some 2 | some 20 => return false
    | _ => return true

/-- Writes a text to one of the outputs. -/
def emit (stream : IO.FS.Stream) (text : String) : IO Unit := do
  stream.putStr text
  stream.flush

/-- The machine that the program runs on. -/
def machine : Shell IO where
  lookupVariable name := IO.getEnv name
  workingDirectory := do return (← IO.currentDir).toString
  isTerminal := do (← IO.getStdout).isTty
  hasFile := isPresent
  readFile := readText
  writeFile path contents := attempted (IO.FS.writeFile path contents)
  makeDirectories path := attempted (IO.FS.createDirAll path)
  clock := do
    let now ← Std.Time.Timestamp.now
    let nanoseconds := now.toNanosecondsSinceUnixEpoch.val
    return (nanoseconds / 1000000000, (nanoseconds % 1000000000).toNat)
  transmit _ _ _ := return .error "connections are not supported"
  output text := do emit (← IO.getStdout) text
  errorOutput text := do emit (← IO.getStderr) text

end MonitorExport.CommandLine

open MonitorExport.CommandLine in
def main (arguments : List String) : IO UInt32 := do
  return UInt32.ofNat (← run machine arguments)
