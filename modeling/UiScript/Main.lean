/-
The program: reads the environment, the arguments and the inputs, and
writes what the command leaves behind. What a command does is said in
`CommandLine.Command`; this file only meets the system.
-/
import UiScript.CommandLine.Command

namespace UiScript.Main

open CommandLine

/-- The text of some bytes. -/
def decode (bytes : ByteArray) : Except ReadFailure String :=
  match String.fromUTF8? bytes with
  | some s => .ok s
  | none => .error .notText

/-- Why reading failed. -/
def readFailure : IO.Error → ReadFailure
  | .noFileOrDirectory .. => .missing
  | .permissionDenied .. => .forbidden
  | e => .other (toString e)

/-- Reads a file, or standard input. -/
def read : Reader IO := fun path => do
  try
    if path == standardInput then return decode (← (← IO.getStdin).readBinToEnd)
    else return decode (← IO.FS.readBinFile path)
  catch e => return .error (readFailure e)

end UiScript.Main

/-- Runs a command. -/
def main (arguments : List String) : IO UInt32 := do
  let names := [UiScript.Config.depthVariable, UiScript.Config.chainVariable,
    UiScript.Config.strictVariable]
  let settings ← names.filterMapM fun name => do
    return (← IO.getEnv name).map fun value => (name, value)
  let output ← UiScript.CommandLine.run UiScript.Main.read
    (fun name => (settings.find? fun v => v.1 == name).map Prod.snd) arguments
  IO.print output.stdout
  IO.eprint output.stderr
  return output.code.toUInt32
