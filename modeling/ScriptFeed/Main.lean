import ScriptFeed.Program
import Std.Time

namespace ScriptFeed.Disk

def nameOf (loc : Location) : String := "/" ++ "/".intercalate (loc.map String.ofList)

def locationOf (here : Location) (p : Path) : Location :=
  (Files.steps p).foldl Files.move (if p.isAbsolute then [] else here)

def addDirectory (fs : Files) (loc : Location) : Files :=
  if (fs.node? loc).isSome then fs else { fs with directories := fs.directories ++ [loc] }

def addWay (fs : Files) (loc : Location) : Files :=
  (List.range loc.length).foldl (fun fs n => addDirectory fs (loc.take n)) fs

def addFile (fs : Files) (loc : Location) (b : Bytes) : Files :=
  { fs with names := fs.names ++ [(loc, fs.contents.length)], contents := fs.contents ++ [b] }

def load : (depth : Nat) → Files → Location → IO Files
  | 0, fs, _ => return fs
  | depth + 1, fs, loc => do
    let place := (← IO.currentDir) / nameOf loc
    if ← place.isDir then
      let mut fs := addDirectory (addWay fs loc) loc
      for entry in ← place.readDir do
        fs ← load depth fs (loc ++ [entry.fileName.toList])
      return fs
    else if !(← place.pathExists) || (fs.node? loc).isSome then return fs
    else return addFile (addWay fs loc) loc (← IO.FS.readBinFile place).toList

def save (before after : Files) : IO Unit := do
  for dir in after.directories do
    if (before.node? dir).isNone then IO.FS.createDirAll (nameOf dir)
  for (loc, id) in after.names do
    let b := after.bytes id
    if (before.names.lookup loc).map before.bytes != some b then
      IO.FS.writeBinFile (nameOf loc) ⟨b.toArray⟩

def depth : Nat := 32

def reachable (env : Settings.Environment) (here : Location) (args : CommandLine.Args) :
    IO Files := do
  let mut fs : Files := { here }
  fs := addDirectory (addWay fs here) here
  let config := match args.config with
    | .file path => [path]
    | _ => []
  for p in config ++ env.candidates do
    fs ← load 1 fs (locationOf here p)
  let settings := (Program.settings env fs args.config).1
  let script := (settings.roots.resolve? args.script Inclusion.scriptExtension).toList
  let around := (settings.log :: script).filterMap Path.parent?
  for p in [settings.home, settings.scripts, settings.docs] ++ around do
    fs ← load depth fs (locationOf here p)
  return fs

def directoryOf? (name : String) : IO (Option Path) := do
  match ← IO.getEnv name with
  | some value =>
    let p : Path := ⟨value.toList⟩
    return if p.isAbsolute then some p else none
  | none => return none

def environment : IO Settings.Environment := do
  let user : Path := ⟨((← IO.getEnv "HOME").getD ".").toList⟩
  let usual : Settings.Environment := { user }
  return { usual with
    root := (← IO.getEnv "NSCR_HOME").map fun d => ⟨d.toList⟩
    data := (← directoryOf? "XDG_DATA_HOME").getD usual.data
    config := (← directoryOf? "XDG_CONFIG_HOME").getD usual.config }

end ScriptFeed.Disk

open ScriptFeed in
def main (words : List String) : IO UInt32 := do
  let words := words.map String.toList
  let env ← Disk.environment
  let here := Disk.locationOf [] ⟨(← IO.currentDir).toString.toList⟩
  let files ← match CommandLine.parse words with
    | .ok args => Disk.reachable env here args
    | .error _ => pure {}
  let now := (← Std.Time.PlainDateTime.now).format "uuuu-MM-dd, HH:mm:ss"
  let outcome := Program.run env files now.toList (Nat.pow 2 64) words
  for line in outcome.written.err do IO.eprintln (String.ofList line)
  for line in outcome.written.out do IO.println (String.ofList line)
  Disk.save files outcome.files
  return outcome.code.toUInt32
