import BraceScript.Program

/-! # The command line -/

open BraceScript

/-- Reads a file as bytes, if it exists. -/
def readBytes (name : String) : IO (Option (List Nat)) := do
  try
    let bytes ← IO.FS.readBinFile name
    return some (bytes.toList.map UInt8.toNat)
  catch _ => return none

/-- Runs the program in the file that the first argument names. -/
def main (arguments : List String) : IO UInt32 := do
  let contents ← match arguments with
    | [] => pure none
    | name :: _ => readBytes name
  match CommandLine.output arguments (fun _ => contents) with
  | .ok shown =>
      IO.print shown
      return 0
  | .error e =>
      IO.eprintln ("UnicodeDecodeError: " ++ e.message)
      return 1
