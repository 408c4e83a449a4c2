import ScriptFeed.Path
import ScriptFeed.Utf8
import ScriptFeed.Files.Fault

/-!
Files as a value: directories and regular files at locations, the contents apart from their names.
A file that is open is known by the number of its contents, so it stays readable and writable when
its name is removed or given to another file.
-/

namespace ScriptFeed

abbrev Location := List Text

inductive Handle where
  | file (id : Nat)
  | directory
deriving DecidableEq, Repr

structure Files where
  directories : List Location := []
  names : List (Location × Nat) := []
  contents : List Bytes := []
  here : Location := []
deriving DecidableEq, Repr

namespace Files

def node? (fs : Files) (loc : Location) : Option Handle :=
  if loc = [] || fs.directories.contains loc then some .directory
  else (fs.names.lookup loc).map .file

def move (loc : Location) (step : Text) : Location :=
  if step = ['.'] then loc else if step = ['.', '.'] then loc.dropLast else loc ++ [step]

/-- Follows steps through directories that exist; only the last one may lead to nothing. -/
def follow (fs : Files) : Location → List Text → Except Fault Location
  | loc, [] => .ok loc
  | loc, s :: steps =>
    match fs.node? loc with
    | none => .error .notFound
    | some (.file _) => .error .notDirectory
    | some .directory =>
      if 255 < Text.utf8Size s then .error .nameTooLong else fs.follow (move loc s) steps

def steps (p : Path) : List Text := (Text.pieces '/' p.text).filter (· ≠ [])

def start (fs : Files) (p : Path) : Except Fault Location :=
  if p.text.any (·.toNat == 0) then .error .nulInName
  else if p.text = [] then .error .notFound
  else if 4096 ≤ Text.utf8Size p.text then .error .nameTooLong
  else .ok (if p.isAbsolute then [] else fs.here)

def namesDirectory (p : Path) : Bool := p.text.getLast? == some '/'

def find (fs : Files) (p : Path) : Except Fault Handle := do
  let loc ← fs.follow (← fs.start p) (steps p)
  match fs.node? loc with
  | none => .error .notFound
  | some (.file id) => if namesDirectory p then .error .notDirectory else .ok (.file id)
  | some .directory => .ok .directory

def isFile (fs : Files) (p : Path) : Bool :=
  match fs.find p with
  | .ok (.file _) => true
  | _ => false

def isDirectory (fs : Files) (p : Path) : Bool :=
  match fs.find p with
  | .ok .directory => true
  | _ => false

def «exists» (fs : Files) (p : Path) : Bool :=
  match fs.find p with
  | .ok _ => true
  | .error _ => false

def bytes (fs : Files) (id : Nat) : Bytes := fs.contents.getD id []

def read (fs : Files) (p : Path) : Except Fault Bytes := do
  match ← fs.find p with
  | .file id => .ok (fs.bytes id)
  | .directory => .error .isDirectory

def readText (fs : Files) (p : Path) : Except Fault Text := do
  match Utf8.decode? (← fs.read p) with
  | some t => .ok t
  | none => .error .notText

def parentOf (fs : Files) (p : Path) : Except Fault (Option (Location × Text)) := do
  let base ← fs.start p
  match (steps p).reverse with
  | [] => .ok none
  | last :: back =>
    let loc ← fs.follow base back.reverse
    match fs.node? loc with
    | none => .error .notFound
    | some (.file _) => .error .notDirectory
    | some .directory => .ok (some (loc, last))

def entry (fs : Files) (dir : Location) (name : Text) : Except Fault (Option Handle) :=
  if 255 < Text.utf8Size name then .error .nameTooLong else .ok (fs.node? (dir ++ [name]))

def isDots (s : Text) : Bool := s == ['.'] || s == ['.', '.']

def openWrite (fs : Files) (p : Path) : Except Fault (Nat × Files) := do
  match ← fs.parentOf p with
  | none => .error .isDirectory
  | some (dir, name) =>
    if isDots name || namesDirectory p then .error .isDirectory
    else
      match ← fs.entry dir name with
      | some .directory => .error .isDirectory
      | some (.file id) => .ok (id, fs)
      | none =>
        let id := fs.contents.length
        .ok (id, { fs with names := fs.names ++ [(dir ++ [name], id)],
                           contents := fs.contents ++ [[]] })

def append (fs : Files) (id : Nat) (b : Bytes) : Files :=
  { fs with contents := fs.contents.modify id (· ++ b) }

def write (fs : Files) (p : Path) (b : Bytes) : Except Fault Files := do
  let (id, fs) ← fs.openWrite p
  .ok { fs with contents := fs.contents.set id b }

def createDirectory (fs : Files) (p : Path) : Except Fault Files := do
  match ← fs.parentOf p with
  | none => .error .exists
  | some (dir, name) =>
    if isDots name then .error .exists
    else
      match ← fs.entry dir name with
      | some _ => .error .exists
      | none => .ok { fs with directories := fs.directories ++ [dir ++ [name]] }

def ensureDirectory (fs : Files) (p : Path) : Except Fault Unit × Files :=
  match fs.createDirectory p with
  | .ok fs => (.ok (), fs)
  | .error e => (if fs.isDirectory p then .ok () else .error e, fs)

def createDownTo : (depth : Nat) → Files → Path → Except Fault Unit × Files
  | 0, fs, _ => (.error .noAncestor, fs)
  | depth + 1, fs, p =>
    if p.text = [] then (.ok (), fs)
    else
      match fs.createDirectory p with
      | .error .notFound =>
        match p.parent? with
        | none => (.error .noAncestor, fs)
        | some q =>
          match createDownTo depth fs q with
          | (.error e, fs) => (.error e, fs)
          | (.ok (), fs) => fs.ensureDirectory p
      | _ => fs.ensureDirectory p

/-- Creates a directory and those above it. Those that were created stay when a later one cannot
be. -/
def createDirectories (fs : Files) (p : Path) : Except Fault Unit × Files :=
  createDownTo (p.text.length + 2) fs p

def remove (fs : Files) (p : Path) : Except Fault Files := do
  match ← fs.find p with
  | .directory => .error .isDirectory
  | .file _ =>
    let loc ← fs.follow (← fs.start p) (steps p)
    .ok { fs with names := fs.names.filter (·.1 ≠ loc) }

def listing (fs : Files) : List (Text × Bytes) :=
  fs.names.filterMap fun (loc, id) =>
    if fs.here.isPrefixOf loc then
      some (Text.join '/' (loc.drop fs.here.length), fs.bytes id)
    else none

def size (fs : Files) : Nat := fs.contents.flatten.length

end Files

end ScriptFeed
