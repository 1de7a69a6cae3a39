import Munch.Console.Dialog

/-!
# The command line

Reads files and keys, and prints.
-/

namespace Munch.Console

/-- Writes a text to standard output. -/
def put (t : Text) : IO Unit := do
  let out ← IO.getStdout
  out.write (ByteArray.mk t.toBytes.toArray)
  out.flush

/-- Looks a file up. An error that names no file comes from reading, not from opening. -/
def look (name : Text) : IO Found := do
  try
    let bytes ← IO.FS.readBinFile name.shown
    return .content (Text.ofBytes bytes.toList)
  catch
    | .noFileOrDirectory _ _ reason => return .refused reason
    | .permissionDenied (some _) _ reason => return .refused reason
    | .inappropriateType (some _) _ reason => return .refused reason
    | _ => return .directory

/-- Reads standard input up to the end of a line; empty at the end of the input. -/
partial def getLine (input : IO.FS.Stream) (line : Array UInt8) : IO (Array UInt8) := do
  let bytes ← input.read 1
  if bytes.isEmpty then return line
  let line := line ++ bytes.data
  if bytes.data.back? == some 10 then return line
  getLine input line

/-- Leads a dialog. -/
partial def talk (d : Dialog) : IO Nat := do
  let line ← getLine (← IO.getStdin) #[]
  if line.isEmpty then
    let (text, code) := d.close
    put text
    return code
  match d.pressAll (Text.ofBytes line.toList).runes with
  | (text, .ended code) =>
    put text
    return code
  | (text, .talking d) =>
    put text
    talk d

/-- Runs the command. -/
def command (args : List Text) : IO Nat := do
  let mut found : List (Text × Found) := []
  for name in filesOf args do
    found := (name, ← look name) :: found
  let files := found
  match start args fun name => (files.lookup name).getD (.refused "no such file or directory") with
  | (text, .ended code) =>
    put text
    return code
  | (text, .talking d) =>
    put text
    talk d

end Munch.Console

/-- Runs the command. -/
def main (args : List String) : IO UInt32 := do
  return (← Munch.Console.command (args.map Munch.Text.ofString)).toUInt32
