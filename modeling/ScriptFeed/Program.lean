import ScriptFeed.CommandLine
import ScriptFeed.Processor.Feed

namespace ScriptFeed.Program

open CommandLine

structure Written where
  out : List Text := []
  err : List Text := []
deriving DecidableEq, Repr

instance : Append Written := ⟨fun a b => ⟨a.out ++ b.out, a.err ++ b.err⟩⟩

def diagnostics (verbose : Bool) (events : List Event) : List Text :=
  (events.filterMap Event.diagnostic?).filterMap fun d =>
    if verbose || d.level == .warn then some d.render.toList else none

def report (e : Failure) : List Text :=
  ("nscr: " ++ e.message ++ " [" ++ e.code ++ "]").toList ::
    if e.line = [] then [] else ["  in: ".toList ++ e.line]

def flush (verbose : Bool) (p : Processor) : Written × Processor :=
  let (events, p) := p.takeEvents
  let (output, p) := p.takeOutput
  let (actions, p) := p.takeActions
  ({ err := diagnostics verbose events ++ output ++ actions.map fun a => ("% " ++ a.text).toList },
    p)

def settings (env : Settings.Environment) (files : Files) (config : Config) :
    Settings × List Event :=
  let path :=
    match config with
    | .skip => none
    | .file path => some path
    | .search => env.findFile? files
  match path with
  | none => (env.settings, [])
  | some path =>
    match Settings.ofFile env files path with
    | .ok (s, reports) =>
      (s, reports.map (.settingsFaulty path) ++ [.settingsLoaded path])
    | .error cause => (env.settings, [.settingsUnreadable path cause])

def addStop (p : Processor) (b : Breakpoints × List Event) (s : Stop) : Breakpoints × List Event :=
  let file :=
    match s.file with
    | some name => p.settings.roots.resolve? name Inclusion.scriptExtension
    | none => p.script
  match file with
  | some file => ((b.1.add file s.line).2, b.2)
  | none => (b.1, b.2 ++ [.breakpointIgnored s.line])

/-- The processor before the script is opened. Questions are answered by `-y`, or else with the
lines that are `typed`, one each; where nobody types there are none, and the answers are empty. -/
def setUp (env : Settings.Environment) (files : Files) (now : Text) (args : Args)
    (typed : List Text) : Processor :=
  let (settings, events) := settings env files args.config
  let answer (k : Nat) := if args.yes then settings.yes else Text.trim (typed.getD k [])
  let p : Processor :=
    { settings, files, now, installMode := args.install, prompt := some fun k _ => answer k }
  let p := p.setScript args.script
  let (breakpoints, ignored) := args.stops.foldl (addStop p) ({}, [])
  { p with marked := breakpoints.marked, events := events ++ ignored }

def turn (verbose : Bool) (p : Processor) : Written × Bool × Processor :=
  match p.next with
  | .ok command p =>
    let (w, p) := flush verbose p
    ({ w with out := if command = [] then [] else [command] }, true, p)
  | .error e p =>
    let (w, p) := flush verbose p
    ({ w with err := w.err ++ report e }, false, p)

def serve (verbose : Bool) : (limit : Nat) → Processor → Written × Bool × Processor
  | 0, p => ({}, true, p)
  | limit + 1, p =>
    if p.isOpen then
      let (w, ok, p) := turn verbose p
      let (w', ok', p) := serve verbose limit p
      (w ++ w', ok && ok', p)
    else ({}, true, p)

structure Outcome where
  code : Nat
  written : Written := {}
  files : Files

def runWith (env : Settings.Environment) (files : Files) (now : Text) (limit : Nat) (args : Args)
    (typed : List Text) : Outcome :=
  match (setUp env files now args typed).reopen with
  | .error e p =>
    let (w, p) := flush args.verbose p
    { code := 1, written := { w with err := w.err ++ report e }, files := p.files }
  | .ok _ p =>
    let (opening, p) := flush args.verbose p
    let (w, ok, p) := serve args.verbose limit p
    { code := if ok then 0 else 1, written := opening ++ w, files := p.drop.files }

def run (env : Settings.Environment) (files : Files) (now : Text) (limit : Nat)
    (words : List Text) (typed : List Text := []) : Outcome :=
  match CommandLine.parse words with
  | .ok args => runWith env files now limit args typed
  | .error .version =>
    { code := 0, written := { out := [("nscr " ++ Version.release).toList] }, files }
  | .error .help => { code := 0, files }
  | .error _ => { code := 2, files }

end ScriptFeed.Program
