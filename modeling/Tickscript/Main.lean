/-
  The program: the command line with its files and streams.
-/
import Tickscript.CommandLine

namespace Tickscript

/-- The content of a source, if it can be read. -/
def contentOf : Source → IO (Option ByteArray)
  | .input => do
    let stdin ← IO.getStdin
    return some (← readAll stdin .empty)
  | .file path => do
    try
      return some (← IO.FS.readBinFile path)
    catch _ => return none
where
  /-- All bytes that are left in a stream. -/
  readAll (stream : IO.FS.Stream) (content : ByteArray) : IO ByteArray := do
    let mut content := content
    repeat
      let block ← stream.read 65536
      if block.isEmpty then break
      content := content ++ block
    return content

/-- Writes what a run leaves behind. -/
def conclude (o : Outcome) : IO UInt32 := do
  for e in o.log do
    IO.eprintln (String.ofList e.render)
  IO.print (String.ofList o.output)
  if let some failure := o.failure then
    IO.eprintln (String.ofList failure)
  return .ofNat o.exit

end Tickscript

open Tickscript

def main (args : List String) : IO UInt32 := do
  conclude (← execute contentOf args)
