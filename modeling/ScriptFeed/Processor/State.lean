import ScriptFeed.Event
import ScriptFeed.Inclusion
import ScriptFeed.LocalFunction.Expansion
import ScriptFeed.Package.Installation

/-!
The processor: the open script, the included file if one is being read, the running installation,
and what is handed to the host. Actions on a processor may fail; the processor after a failure is
part of the outcome.
-/

namespace ScriptFeed

inductive HostAction where
  | declare (header : Text)
  | linkHelp (package help : Text)
  | indexDocument (path : Path)
deriving DecidableEq, Repr

def HostAction.text : HostAction → String
  | declare header => "declare package: " ++ String.ofList header
  | linkHelp package help =>
    "help index: " ++ String.ofList package ++ " -> " ++ String.ofList help
  | indexDocument path => "index documentation: " ++ String.ofList path.text

/-- Answers a question; the number tells how many were asked before. -/
abbrev Prompt := Nat → Text → Text

structure Session where
  reader : LineReader
  inComment : Bool := false
deriving DecidableEq, Repr

structure Processor where
  settings : Settings
  files : Files
  -- the time that a record opened now is stamped with
  now : Text := []
  marked : Marked := fun _ _ => false
  prompt : Option Prompt := none
  asked : Nat := 0
  script : Option Path := none
  session : Option Session := none
  inclusion : Option Inclusion := none
  installation : Option Package.Installation := none
  installMode : Bool := false
  valid : Bool := false
  autoStart : Bool := false
  lastServed : Bool := false
  functions : LocalFunctions := {}
  -- the install header read last
  header : Text := []
  output : List Text := []
  actions : List HostAction := []
  events : List Event := []

abbrev Action := EStateM Failure Processor

namespace Processor

def isOpen (p : Processor) : Bool := p.session.isSome

def isIncluding (p : Processor) : Bool := p.inclusion.isSome

def isInstalling (p : Processor) : Bool := p.installation.isSome

def line (p : Processor) : Nat :=
  match p.inclusion, p.session with
  | some i, _ => i.reader.line
  | none, some s => s.reader.line
  | none, none => 0

def packages (p : Processor) : List Path :=
  match p.installation with
  | some i => i.chain.entries
  | none => []

def shortName (p : Processor) : Text :=
  match p.script with
  | some path => path.abbreviated
  | none => []

def emit (e : Event) (p : Processor) : Processor := { p with events := p.events ++ [e] }

def say (t : Text) (p : Processor) : Processor := { p with output := p.output ++ [t] }

def request (a : HostAction) (p : Processor) : Processor := { p with actions := p.actions ++ [a] }

def setScript (name : Text) (p : Processor) : Processor :=
  { p with script := p.settings.roots.resolve? name Inclusion.scriptExtension }

def takeLastServed (p : Processor) : Bool × Processor :=
  (p.lastServed, { p with lastServed := false })

def takeHeader (p : Processor) : Text × Processor := (p.header, { p with header := [] })

def takeOutput (p : Processor) : List Text × Processor := (p.output, { p with output := [] })

def takeActions (p : Processor) : List HostAction × Processor :=
  (p.actions, { p with actions := [] })

def takeEvents (p : Processor) : List Event × Processor := (p.events, { p with events := [] })

def setPrompt (prompt : Option Prompt) (p : Processor) : Processor := { p with prompt, asked := 0 }

def lift {α : Type} (x : Except Fault α) : Action α :=
  match x with
  | .ok a => pure a
  | .error e => throw (.files e)

def setReader (reader : LineReader) (p : Processor) : Processor :=
  { p with session := p.session.map fun s => { s with reader } }

end Processor

end ScriptFeed
