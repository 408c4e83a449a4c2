import ScriptFeed.Processor.State

namespace ScriptFeed.Processor

open Package

def record? (p : Processor) : Option Record := p.installation.bind (·.record)

def recordIn (r : Record) (e : Entry) (p : Processor) : Processor :=
  { p with files := r.write e p.files }.emit (.recorded r.path e)

def record (e : Entry) (p : Processor) : Processor :=
  match p.record? with
  | some r => p.recordIn r e
  | none => p

def closeRecord (success : Bool) (p : Processor) : Bool × Processor :=
  match p.record? with
  | none => (false, p)
  | some r =>
    let p := p.recordIn r (.closed success)
    let installation := p.installation.map fun (i : Installation) => { i with record := none }
    (true, { p with installation }.emit (.recordClosed r.path success))

/-- Gives up the streams and the installation. The script that began a chain is the script again. -/
def teardown (p : Processor) : Processor :=
  let (_, p) := p.closeRecord false
  { p with
    inclusion := none, session := none, installation := none
    script := (p.installation.bind (·.chain.origin?)).or p.script
    valid := false, autoStart := false, installMode := false, functions := {} }

def isChained (p : Processor) : Bool := p.installation.any (!·.chain.isEmpty)

def shut (p : Processor) : Processor := { p with session := none, inclusion := none }

def opened (path : Path) (reader : LineReader) (p : Processor) : Processor :=
  { p with
    script := some path, session := some { reader }
    valid := true, autoStart := false, functions := {}
    installation := p.installation.map Installation.forPackage }.emit (.scriptOpened path)

def unopened (path : Path) (cause : Fault) (p : Processor) : Processor :=
  let p := p.emit (.scriptUnreadable path cause)
  if p.isChained then p.teardown else { p.teardown with script := none }

def openPath (path : Path) : Action Unit := do
  modify shut
  let p ← get
  match LineReader.openFile p.files path with
  | .error cause =>
    set (p.unopened path cause)
    throw (.scriptNotFound [] path)
  | .ok reader => set (p.opened path reader)

def reopen : Action Unit := do
  match (← get).script with
  | some path => openPath path
  | none => pure ()

def openScript (name : Text) : Action Unit := do
  modify (setScript name)
  reopen

def advanceChain (p : Processor) : Option Path × Processor :=
  match p.installation with
  | none => (none, p)
  | some i =>
    let p :=
      if !i.chain.isEmpty && i.chain.isExhausted then p.emit (.chainFinished i.chain.size) else p
    let (next, chain) := i.chain.advance
    (next, { p with installation := some { i with chain } })

def close : Action Unit := do
  if (← get).isOpen then
    modify fun p => (p.shut.closeRecord false).2
    let (next, p) := (← get).advanceChain
    match next with
    | some path =>
      set ({ p with lastServed := false }.emit (.nextPackage path))
      openPath path
    | none => set (p.teardown.emit .scriptClosed)

def rewind : Action Unit := do
  let p ← get
  match p.session with
  | none => reopen
  | some s =>
    match LineReader.openFile p.files s.reader.path with
    | .error _ => throw (.scriptNotFound [] s.reader.path)
    | .ok reader =>
      set ({ p with session := some { reader } }.emit (.scriptRestarted s.reader.path))

def restart : Action Unit := do
  modify fun p => { p with functions := {}, inclusion := none }
  rewind

def concludeRecord (success : Bool) (p : Processor) : Processor :=
  let (closed, p) := p.closeRecord success
  if closed && success && !p.installation.any (·.quiet) then p.say successMessage else p

def returnFrom : Action Unit := do
  if (← get).isOpen then
    modify (concludeRecord true)
    close

def drop (p : Processor) : Processor := if p.isOpen then p.teardown else p

end ScriptFeed.Processor
