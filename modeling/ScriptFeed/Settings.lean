import ScriptFeed.Files
import ScriptFeed.Path.Resolve
import ScriptFeed.Version

/-!
Settings: where things are and which build is running. A settings file holds lines of the form
`set name=value` or `set name value`; a faulty line is reported and changes nothing.
-/

namespace ScriptFeed

structure Settings where
  home : Path
  scripts : Path
  -- the install log, if it is not at its usual place
  logSet : Option Path := none
  docsSet : Option Path := none
  version : Nat := Version.build
  -- how an answer that accepts a license begins
  yes : Text := ['y']
deriving DecidableEq, Repr

namespace Settings

def underScripts (home : Path) : Path := home.join ⟨"scripts".toList⟩

def rooted (home : Path) : Settings := { home, scripts := underScripts home }

def log (s : Settings) : Path := s.logSet.getD (s.home.join ⟨"install.log".toList⟩)

def docs (s : Settings) : Path :=
  s.docsSet.getD ((s.home.join ⟨"docs".toList⟩).join ⟨"plugins".toList⟩)

def roots (s : Settings) : Roots := ⟨s.home, s.scripts⟩

inductive Mistake where
  | noArgument
  | noValue (name : Text)
  | badVersion (value : Text)
  | emptyYes
  | emptyName
  | unknown (name : Text)
deriving DecidableEq, Repr

def Mistake.message : Mistake → String
  | noArgument => "set: requires an argument"
  | noValue name => "set: missing value for '" ++ String.ofList name ++ "'"
  | badVersion value => "set: invalid version '" ++ String.ofList value ++ "'"
  | emptyYes => "set: yes_answer cannot be empty"
  | emptyName => "set: setting name cannot be empty"
  | unknown name => "set: unknown setting '" ++ String.ofList name ++ "'"

structure Report where
  line : Nat
  mistake : Mistake
deriving DecidableEq, Repr

def Report.message (r : Report) : String := s!"line {r.line}: {r.mistake.message}"

def wordsFrom : (quoted : Bool) → (word : Text) → Text → List Text
  -- quotes are dropped, and inside them a backslash stands for the character after it
  | _, word, [] => if word = [] then [] else [word.reverse]
  | quoted, word, '"' :: r => wordsFrom (!quoted) word r
  | true, word, '\\' :: c :: r => wordsFrom true (c :: word) r
  | true, word, ['\\'] => if word = [] then [] else [word.reverse]
  | true, word, c :: r => wordsFrom true (c :: word) r
  | false, word, c :: r =>
    if Text.isAsciiBlank c then
      if word = [] then wordsFrom false [] r else word.reverse :: wordsFrom false [] r
    else wordsFrom false (c :: word) r

def words (t : Text) : List Text := wordsFrom false [] t

def assignment : List Text → Except Mistake (Text × Text)
  | [] => .error .noArgument
  | w :: rest =>
    match Text.cutAt '=' w, rest with
    | some nv, _ => .ok nv
    | none, [] => .error (.noValue w)
    | none, _ => .ok (w, Text.join ' ' rest)

/-- A script directory at its usual place follows the installation root. -/
def setHome (s : Settings) (home : Path) : Settings :=
  let usual := s.scripts.same (underScripts s.home)
  { s with home, scripts := if usual then underScripts home else s.scripts }

def assign (s : Settings) (name value : Text) : Except Mistake Settings :=
  if name = "exe_dir".toList then .ok (s.setHome ⟨value⟩)
  else if name = "script_dir".toList then .ok { s with scripts := ⟨value⟩ }
  else if name = "log_file".toList then .ok { s with logSet := some ⟨value⟩ }
  else if name = "docs_dir".toList then .ok { s with docsSet := some ⟨value⟩ }
  else if name = "runtime_version".toList then
    match Version.flatten? value with
    | some version => .ok { s with version }
    | none => .error (.badVersion value)
  else if name = "yes_answer".toList then
    if value = [] then .error .emptyYes else .ok { s with yes := value }
  else if name = [] then .error .emptyName
  else .error (.unknown name)

def directive? (line : Text) : Option Text :=
  let line := Text.trim line
  if Text.startsWith ['#', '#'] line then none
  else if line.takeWhile (!Text.isAsciiBlank ·) = "set".toList then
    some (Text.trim (line.dropWhile (!Text.isAsciiBlank ·)))
  else none

def applyLine (s : Settings) (line : Text) : Except Mistake Settings :=
  match directive? line with
  | none => .ok s
  | some t => do
    let (name, value) ← assignment (words t)
    s.assign name value

def applyLines : (number : Nat) → Settings → List Text → Settings × List Report
  | _, s, [] => (s, [])
  | n, s, line :: r =>
    match s.applyLine line with
    | .ok s => applyLines (n + 1) s r
    | .error mistake =>
      let (s, reports) := applyLines (n + 1) s r
      (s, ⟨n, mistake⟩ :: reports)

def lines (t : Text) : List Text :=
  match (Text.pieces '\n' t).reverse with
  | [] :: r => r.reverse
  | _ => Text.pieces '\n' t

def apply (s : Settings) (t : Text) : Settings × List Report := applyLines 1 s (lines t)

structure Environment where
  root : Option Path := none
  user : Path
  data : Path := user.join ⟨".local/share".toList⟩
  config : Path := user.join ⟨".config".toList⟩
deriving DecidableEq, Repr

namespace Environment

def home (e : Environment) : Path :=
  e.root.getD (e.data.join ⟨"nscr".toList⟩)

def candidates (e : Environment) : List Path :=
  [(e.config.join ⟨"nscr".toList⟩).join ⟨"nscrrc".toList⟩, e.user.join ⟨".nscrrc".toList⟩,
    ⟨"./.nscrrc".toList⟩]

def settings (e : Environment) : Settings := rooted e.home

def findFile? (e : Environment) (fs : Files) : Option Path := e.candidates.find? fs.exists

end Environment

def ofText (e : Environment) (t : Text) : Settings × List Report := e.settings.apply t

def ofFile (e : Environment) (fs : Files) (p : Path) :
    Except Fault (Settings × List Report) :=
  (fs.readText p).map (ofText e)

end Settings

end ScriptFeed
