import Whittle.Rehearsal

/-!
The program. It reads what is below the working directory, rehearses the run that
the command line asks for, and brings the files on disk to where the run left them.
-/

namespace Whittle.Main

def placeOf (directory : String) : Disk.Place :=
  (Path.ofText (Text.held directory)).names

def textOf (place : Disk.Place) : String :=
  Text.joined (Path.mk "/" place).text

/-- Reads what is below a place. -/
partial def readBelow (place : Disk.Place) : IO (List (Disk.Place × Entry)) := do
  let directory ← IO.FS.realPath (textOf place)
  let mut found : List (Disk.Place × Entry) := []
  for entry in ← directory.readDir do
    let inner := place ++ [Text.held entry.fileName]
    if ← entry.path.isDir then
      found := found ++ (inner, Entry.dir) :: (← readBelow inner)
    else
      let data ← IO.FS.readBinFile entry.path
      found := found ++ [(inner, Entry.file (.ofBytes data.toList) Disk.newMode)]
  return found

/-- Makes what stands at a place what it is to be. -/
def writeEntry (place : Disk.Place) (entry : Entry) : IO Unit := do
  match entry with
  | .dir => IO.FS.createDirAll (textOf place)
  | .file contents _ =>
    IO.FS.createDirAll (textOf place.dropLast)
    IO.FS.writeBinFile (textOf place) (ByteArray.mk contents.bytes.toArray)
  | .link _ => return

def removeEntry (place : Disk.Place) : Entry → IO Unit
  | .dir => IO.FS.removeDirAll (textOf place)
  | _ => IO.FS.removeFile (textOf place)

def apply (before after : Disk) : IO Unit := do
  for (place, entry) in after.entries do
    if before.get? place ≠ some entry then writeEntry place entry
  let gone := before.entries.filter fun (place, _) => (after.get? place).isNone
  let topmost := gone.filter fun (place, _) => !gone.any (·.1 = place.dropLast)
  for (place, entry) in topmost do
    removeEntry place entry

end Whittle.Main

def main (words : List String) : IO UInt32 := do
  let home := Whittle.Main.placeOf (← IO.currentDir).toString
  let disk : Whittle.Disk := { home, entries := ← Whittle.Main.readBelow home }
  let milliseconds ← IO.monoMsNow
  let wish ← IO.getEnv "GRAMMAR_REDUCE_LOG_STREAM"
  let world : Whittle.World := { disk, clock := milliseconds.toFloat / 1000.0 }
  let words := words.map Whittle.Text.held
  let (status, after) := Whittle.Rehearsal.run s!"run-{milliseconds}" words wish world
  Whittle.Main.apply disk after.disk
  (← IO.getStdout).putStr (Whittle.Text.joined after.printed)
  (← IO.getStderr).putStr (Whittle.Text.joined after.complained)
  return UInt32.ofNat status
