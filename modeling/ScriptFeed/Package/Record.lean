import ScriptFeed.Files

namespace ScriptFeed.Package

inductive Entry where
  | opened (stamp : Text)
  | info (header : Text)
  | installing (procedure : Text)
  | evaluating (line : Text)
  | copying (line : Text)
  | closed (success : Bool)
deriving DecidableEq, Repr

def Entry.text : Entry → Text
  | opened stamp => "--- INSTALLATION ".toList ++ stamp ++ " ---\n".toList
  | info header => "Installinfo: ".toList ++ header ++ ['\n']
  | installing procedure => ">> Installing: \"".toList ++ procedure ++ "\" ...\n".toList
  | evaluating line => ">> Evaluating: ".toList ++ line ++ " ...\n".toList
  | copying line => ">> >> Copying: ".toList ++ line ++ " ...\n".toList
  | closed true => "--- INSTALLATION TERMINATED SUCCESSFULLY ---\n\n\n".toList
  | closed false => "--- INSTALLATION FAILED ---\n\n\n".toList

structure Record where
  path : Path
  file : Nat
deriving DecidableEq, Repr

namespace Record

def write (r : Record) (e : Entry) (fs : Files) : Files := fs.append r.file (Utf8.encode e.text)

def start (path : Path) (stamp : Text) (fs : Files) : Except Fault (Record × Files) := do
  let (file, fs) ← fs.openWrite path
  let r : Record := { path, file }
  .ok (r, r.write (.opened stamp) fs)

end Record

end ScriptFeed.Package
