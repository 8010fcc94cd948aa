import AisScript.Command
import Std.Time.DateTime.Timestamp

/-!
# The program

The outermost layer: the part of the disk that a command may look at is read into a `Disk`, the
command is run on it, and what has changed is written back.
-/

namespace AisScript.Program

/-- The string that a text stands for; stray bytes are shown as the replacement character. -/
def stringOf (t : Text) : String :=
  String.join (t.glyphs.map fun g => String.singleton (Char.ofNat g.code))

/-- Puts everything at a path and below it onto a disk. -/
partial def readTree (disk : Disk) (path : String) : IO Disk := do
  let place := Path.cleanComponents (Text.ofString path)
  try
    let real ← IO.FS.realPath path
    if ← real.isDir then
      let mut disk := disk.put place .folder
      for e in ← real.readDir do
        disk ← readTree disk (path ++ "/" ++ e.fileName)
      return disk
    else
      let bytes ← IO.FS.readBinFile path
      return disk.put place (.file bytes.toList)
  catch _ => return disk

/-- Writes the files of the new disk that the old one does not have, and makes its folders. -/
def writeBack (old new : Disk) : IO Unit := do
  for (place, entry) in new.entries.mergeSort (fun a b => Disk.placeLe a.1 b.1) do
    if old.entry? place ≠ some entry then
      let path := stringOf (Path.ofComponents true place)
      match entry with
      | .folder => IO.FS.createDirAll path
      | .file bytes => IO.FS.writeBinFile path ⟨bytes.toArray⟩

/-- Everything that the command line may refer to: the working directory, the given paths, the
cache, and the manifests above the working directory. -/
def visibleDisk (cwd : String) (cacheHome : Option String) (args : List String) : IO Disk := do
  let mut disk ← readTree (Disk.empty (Text.ofString cwd)) cwd
  for a in args do
    if !a.startsWith "-" then
      disk ← readTree disk (if a.startsWith "/" then a else cwd ++ "/" ++ a)
  match cacheHome with
  | some home => disk ← readTree disk (home ++ "/" ++ stringOf Command.Verb.none.name)
  | none => pure ()
  for d in Manifest.ancestors (Path.cleanComponents (Text.ofString cwd)) do
    disk ← readTree disk (stringOf (Path.join d Manifest.fileName))
  return disk

/-- The directory that caches are kept in. -/
def cacheHome : IO (Option String) := do
  match ← IO.getEnv "XDG_CACHE_HOME" with
  | some d => if d.isEmpty then inHome else return some d
  | none => inHome
where
  /-- The usual place in the home directory. -/
  inHome : IO (Option String) := return (← IO.getEnv "HOME").map (· ++ "/.cache")

/-- Runs the command line on the real disk. -/
def run (args : List String) : IO UInt32 := do
  let cwd := (← IO.currentDir).toString
  let cacheHome ← cacheHome
  let disk ← visibleDisk cwd cacheHome args
  let now ← Std.Time.Timestamp.now
  let env : Command.Environment :=
    { cacheHome := cacheHome.map Text.ofString
      now := ⟨now.toNanosecondsSinceUnixEpoch.toInt / 1000⟩ }
  let exit := Command.run env disk (args.map Text.ofString)
  writeBack disk exit.disk
  (← IO.getStdout).write ⟨exit.stdout.toArray⟩
  (← IO.getStderr).write ⟨exit.stderr.toArray⟩
  return exit.status.toUInt32

end AisScript.Program

/-- The compiler's command line. -/
def main (args : List String) : IO UInt32 := AisScript.Program.run args
