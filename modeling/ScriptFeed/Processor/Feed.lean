import ScriptFeed.Comment.Notes
import ScriptFeed.Processor.Artifact

/-!
The feed of commands. Each logical line of the script goes through the stages below, in this order;
a stage may use up the line. `next` hands out the next command; the empty command means that there
is nothing to execute right now.
-/

namespace ScriptFeed.Processor

open Package Comment

def keepsDocs (p : Processor) : Bool := p.installMode && p.installation.any (·.inProcedure)

def noted (p : Processor) (docMark t : Text) (notes : Notes) : Notes :=
  if p.installMode && Text.startsWith docMark t then notes.push t else {}

def leaveComment (t : Text) (notes : Notes) : Action (Option Text × Notes) := do
  let p ← get
  match p.session with
  | some s =>
    if s.inComment then
      let (r, notes) := resumeWith t true notes
      set { p with session := some { s with inComment := r.active } }
      return (r.rest, notes)
    else return (some t, notes)
  | none => return (some t, notes)

def dropLineComment (p : Processor) (t : Text) (notes : Notes) : Option Text × Notes :=
  if Text.contains lineMark t then
    let notes := p.noted lineDocMark t notes
    match stripLine t p.keepsDocs with
    | [] => (none, notes)
    | t => (some t, notes)
  else (some t, notes)

def enterSection (t : Text) : Action (Option Text) := do
  if Text.startsWith installOpen t then
    if (← get).installMode then startInstall t
    else
      skipSection
      return none
  else return some t

def enterHeader (t : Text) : Action (Option Text) := do
  if (← get).installMode && Text.startsWith infoOpen t then readHeader t else return some t

def leaveSection (p : Processor) (t : Text) : Option Text × Processor :=
  if Text.startsWith installClose t then
    let p := (p.concludeRecord true).setInProcedure false
    match Text.trim (t.drop installClose.length) with
    | [] => (none, p)
    | t => (some t, p)
  else (some t, p)

def dropBlockComments (p : Processor) (t : Text) (notes : Notes) : Text × Notes × Processor :=
  if Text.contains blockOpen t then
    let notes := p.noted blockDocOpen t notes
    match p.session with
    | some s =>
      let (t, inComment) := stripBlock t p.keepsDocs s.inComment
      (t, notes, { p with session := some { s with inComment } })
    | none => (t, notes, p)
  else (t, notes, p)

inductive Reading where
  -- nothing to execute; the notes wait on
  | nothing (notes : Notes)
  | line (t : Text)
  | stop
deriving DecidableEq, Repr

def finishLine (t : Text) (notes : Notes) : Reading :=
  match Text.trim t with
  | [] => .nothing notes
  | t => .line (if Text.startsWith "procedure ".toList t then (notes.attachTo t).1 else t)

inductive Entered where
  | used (r : Reading)
  | text (t : Text) (notes : Notes)
deriving DecidableEq, Repr

def enterLine (t : Text) (notes : Notes) : Action Entered := do
  let (rest, notes) ← leaveComment t notes
  let some t := rest | return .used (.nothing notes)
  let (rest, notes) := (← get).dropLineComment t notes
  let some t := rest | return .used (.nothing notes)
  let some t ← enterSection t | return .used (.nothing notes)
  let some t ← enterHeader t | return .used (.nothing notes)
  if (← get).installMode && Text.startsWith Article.fileOpen t then
    writeHelp t
    return .used (.nothing notes)
  if Text.startsWith "layout ".toList t then
    if let some command ← writeLayout t then return .used (.line command)
  return .text t notes

def leaveLine (t : Text) (notes : Notes) (p : Processor) : Reading × Processor :=
  match p.leaveSection t with
  | (none, p) => (.nothing notes, p)
  | (some t, p) =>
    let (t, notes, p) := p.dropBlockComments t notes
    (finishLine t notes, p)

def readText (t : Text) (notes : Notes) : Action Reading := do
  match ← enterLine t notes with
  | .used r => return r
  | .text t notes =>
    let (r, p) := (← get).leaveLine t notes
    set p
    return r

def readLine (notes : Notes) : Action Reading := do
  let p ← get
  match p.session with
  | none => return .stop
  | some s =>
    let (logical, reader) ← lift (s.reader.nextLogical p.files p.marked)
    modify (setReader reader)
    match logical with
    | none => return .stop
    | some l => if l.text = [] then return .nothing notes else readText l.text notes

def directory (p : Processor) : Text :=
  let path := (p.session.map (·.reader.path)).or p.script
  match path.bind Path.parent? with
  | some dir => dir.text
  | none => []

def thisToken : Text := "<this>".toList

def expandThis (p : Processor) (t : Text) : Text := Text.replaceAll thisToken p.directory t

def readIncluded (i : Inclusion) : Action (Option Text) := do
  let p ← get
  let (line, i) ← lift (i.next p.files p.marked)
  match line with
  | some t =>
    set { p with inclusion := some i }
    return some t
  | none =>
    let p := p.emit (.includeExhausted i.reader.path)
    let p := if i.inComment then p.emit (.includeInComment i.reader.path) else p
    set { p.emit (.includeClosed i.reader.path i.scope) with inclusion := none }
    return none

def openInclusion (m : Marker) (line : Text) : Action Unit := do
  let p ← get
  match Inclusion.open p.files p.settings.roots m with
  | .error _ => throw (.scriptNotFound line (Inclusion.pathOf p.settings.roots m))
  | .ok i =>
    set ({ p with inclusion := some i }.emit (.includeOpened i.reader.path i.scope))

def command? (t : Text) : Action (Option Text) := do
  let p ← get
  if p.installMode then
    set (p.echoLine t)
    return some t
  else if Keyword.startsProcedure t then throw (.procedureOutsideInstall t)
  else if LocalFunction.isDefinition t then
    match p.functions.define t with
    | .error cause => throw (.badDefinition t cause)
    | .ok (f, functions) =>
      set ({ p with functions }.emit (.functionDefined f.name f.params.length))
      return none
  else return some (p.functions.substitute t)

def scriptCommand? (t : Text) : Action (Option Text) := do
  match Marker.parse? t with
  | none => command? t
  | some m =>
    if m.name = [] then
      modify (emit (.includeUnnamed t))
      return some []
    else
      openInclusion m t
      return none

inductive Turn where
  | command (t : Text)
  | more (notes : Notes)
deriving DecidableEq, Repr

def Turn.ofCommand? : Option Text → Turn
  | some t => .command t
  | none => .more {}

def turn (notes : Notes) : Action Turn := do
  match (← get).inclusion with
  | some i =>
    match ← readIncluded i with
    | none => return .more {}
    | some t => return .ofCommand? (← command? ((← get).expandThis t))
  | none =>
    match ← readLine notes with
    | .stop => return .command []
    | .nothing notes => return .more notes
    | .line t => return .ofCommand? (← scriptCommand? ((← get).expandThis t))

abbrev Outcome (α : Type) := EStateM.Result Failure Processor α

def lastTurn : Outcome Text → Outcome Turn
  | .ok t q => .ok (.command t) q
  | .error e q => .error e q

/-- Turns without a command lead from one place of the feed to another. -/
inductive Feeds : Notes → Processor → Notes → Processor → Prop
  | refl (notes : Notes) (p : Processor) : Feeds notes p notes p
  | tail {notes notes' notes'' : Notes} {p q r : Processor} (h : Feeds notes p notes' q)
      (ht : turn notes' q = .ok (.more notes'') r) : Feeds notes p notes'' r

/-- The outcome that the turns from one place of the feed come to. -/
def Fed (notes : Notes) (p : Processor) (r : Outcome Text) : Prop :=
  ∃ notes' q, Feeds notes p notes' q ∧ turn notes' q = lastTurn r

structure Place (start : Notes) (first : Processor) where
  notes : Notes
  state : Processor
  reached : Feeds start first notes state

namespace Place

variable {start : Notes} {first : Processor}

def Follows (b a : Place start first) : Prop := turn a.notes a.state = .ok (.more b.notes) b.state

def step (a : Place start first)
    (go : (b : Place start first) → b.Follows a → Option { r // Fed start first r }) :
    Option { r // Fed start first r } :=
  match h : turn a.notes a.state with
  | .ok (.command t) q => some ⟨.ok t q, a.notes, a.state, a.reached, h⟩
  | .ok (.more notes) q => go ⟨notes, q, a.reached.tail h⟩ h
  | .error e q => some ⟨.error e q, a.notes, a.state, a.reached, h⟩

def run (a : Place start first) : Option { r // Fed start first r } :=
  WellFounded.partialExtrinsicFix Follows step a

end Place

def feed? (notes : Notes) (p : Processor) : Option (Outcome Text) :=
  (Place.run ⟨notes, p, .refl notes p⟩).map (·.1)

def closeAtEnd : Action Unit := do
  let p ← get
  if p.isIncluding then pure ()
  else
    match p.session with
    | none => pure ()
    | some s =>
      let (ended, reader) := s.reader.atEnd p.files
      set (p.setReader reader)
      if ended then
        modify fun p => { p with lastServed := true }
        close

def abort (e : Failure) (p : Processor) : Processor :=
  (p.emit (.scriptAborted e p.line)).teardown

def settle : Outcome Text → Outcome Text
  | .error e p => .error e (p.abort e)
  | .ok command p =>
    match closeAtEnd p with
    | .ok _ p => .ok command p
    | .error e p => .error e (p.abort e)

/-- What a call for the next command comes to; none if it never returns. -/
def next? (p : Processor) : Option (Outcome Text) :=
  if p.isOpen then (feed? {} p).map settle else some (.ok [] p)

def next : Action Text := fun p => p.next?.getD (.ok [] p)

end ScriptFeed.Processor
