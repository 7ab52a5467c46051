import SoftDelete.Command.Run

open SoftDelete

def readFile (path : String) : IO FileContent := do
  try
    return .text (← IO.FS.readFile path)
  catch e =>
    match e with
    | .noFileOrDirectory .. => return .missing
    | _ => return .unreadable

def readInput : IO (Option String) := do
  let input ← IO.getStdin
  try
    let bytes ← input.readBinToEnd
    return String.fromUTF8? bytes
  catch _ => return none

def surroundings : Surroundings IO where
  file := readFile
  standardInput := readInput
  setting name := IO.getEnv name

def main (arguments : List String) : IO UInt32 := do
  let result ← Command.execute surroundings arguments
  let output ← IO.getStdout
  output.putStr result.output
  output.flush
  return result.exitCode.toUInt32
