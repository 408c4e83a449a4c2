import ScriptFeed.Processor.Lifecycle
import ScriptFeed.Comment.Line
import ScriptFeed.Text.Lowercase

namespace ScriptFeed.Processor

open Package

def current (p : Processor) : Installation := p.installation.getD {}

def packagePath? (p : Processor) (name : Text) : Option Path :=
  let roots := p.settings.roots
  match roots.resolve? ("packages/".toList ++ name) Inclusion.scriptExtension with
  | some path =>
    if p.files.isFile path then some path else roots.resolve? name Inclusion.scriptExtension
  | none => roots.resolve? name Inclusion.scriptExtension

def queue (p : Processor) (package : Path) : Processor :=
  let i := p.current
  let (new, chain) := i.chain.enqueue (p.script.getD ⟨[]⟩) package
  let p := { p with installation := some { i with chain } }
  if new then p.emit (.packageQueued package) else p

def accepts (p : Processor) (answer : Text) : Bool :=
  Text.startsWith (Text.lower p.settings.yes) (Text.lower (Text.trim answer))

def ask (question : Text) (p : Processor) : Text × Processor :=
  match p.prompt with
  | some prompt => (prompt p.asked question, { p with asked := p.asked + 1 })
  | none => ([], p)

def assemble (line : Text) : Action Text := do
  if Text.contains infoClose line then return line
  let p ← get
  match p.session with
  | none => return line
  | some s =>
    let (passage, reader) ←
      lift (s.reader.through p.files fun t => Text.contains infoClose (Comment.stripLine t false))
    modify (setReader reader)
    return line ++ passage.lines.flatMap fun t => ' ' :: Comment.stripLine t false

def agree (h : Header) : Action Bool := do
  match h.license with
  | none => return true
  | some license =>
    let question := licenseMessage h.name license
    modify (say question)
    let (answer, p) := (← get).ask question
    set p
    return p.accepts answer

def admitHeader (h : Header) (p : Processor) : Processor :=
  let i := p.current.apply h
  let p := { p with installation := some i }
  let p :=
    if h.text = [] then p
    else
      let p := if i.quiet then p else p.say startMessage
      (p.record (.info h.text)).request (.declare h.text)
  { p with header := h.text }

def readHeader (line : Text) : Action (Option Text) := do
  match splitInfo? (← assemble line) with
  | none => throw (.openHeader line)
  | some (header, rest) =>
    let h := Header.parse header
    modify fun p =>
      (h.packages.filterMap p.packagePath?).foldl queue { p with installation := some p.current }
    let version := (← get).settings.version
    if h.required.any (version < ·) then
      throw (.versionTooLow line (h.required.getD 0) version)
    if ← agree h then
      modify (admitHeader h)
      let rest := Text.trim rest
      return if rest = [] then none else some rest
    else
      modify fun p => (p.say abortMessage).emit (.licenseDeclined h.name)
      close
      return none

def begin (r : Record) (files : Files) (p : Processor) : Processor :=
  let p := { p with files }.emit (.recorded r.path (.opened p.now))
  let p := p.emit (.recordOpened r.path)
  let p := p.record (.closed false)
  { p with installation := some (p.current.take r) }.emit (.installationStarted p.shortName)

def startInstall (line : Text) : Action (Option Text) := do
  let p ← get
  match Record.start p.settings.log p.now p.files with
  | .error cause => throw (.cannotOpenLog line p.settings.log cause)
  | .ok (r, files) =>
    set (p.begin r files)
    let rest := Text.trim (line.drop installOpen.length)
    if Text.contains infoOpen rest then readHeader rest else return none

def skipSection : Action Unit := do
  let p ← get
  match p.session with
  | none => pure ()
  | some s =>
    let (_, reader) ← lift (s.reader.through p.files (Text.startsWith installClose))
    modify fun p => (p.setReader reader).emit (.sectionSkipped reader.line)

def setInProcedure (b : Bool) (p : Processor) : Processor :=
  { p with
    installation := p.installation.map fun (i : Installation) => { i with inProcedure := b } }

def announce (line : Text) (p : Processor) : Processor :=
  match Keyword.procedureName? line with
  | none => p
  | some name =>
    let p := (p.setInProcedure true).record (.installing name)
    if p.installation.any (·.quiet) then p else p.say (installingMessage name)

def recordEcho (line : Text) (p : Processor) : Processor :=
  match p.installation.bind (·.echo? line) with
  | some e => p.record e
  | none => p

def echoLine (line : Text) (p : Processor) : Processor :=
  if p.record?.isNone then p
  else
    let p := (p.announce line).recordEcho line
    if Keyword.endsProcedure line then p.setInProcedure false else p

end ScriptFeed.Processor
