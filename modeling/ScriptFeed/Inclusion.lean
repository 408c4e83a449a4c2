import ScriptFeed.Comment.Block
import ScriptFeed.Comment.Line
import ScriptFeed.Inclusion.Marker
import ScriptFeed.LineReader
import ScriptFeed.Package.Markers
import ScriptFeed.Path.Resolve

namespace ScriptFeed

structure Inclusion where
  reader : LineReader
  scope : Scope
  inComment : Bool := false
deriving DecidableEq, Repr

namespace Inclusion

def scriptExtension : Text := ".nscr".toList

def pathOf (roots : Roots) (m : Marker) : Path :=
  (roots.resolve? m.name scriptExtension).getD ⟨m.name⟩

def «open» (fs : Files) (roots : Roots) (m : Marker) : Except Fault Inclusion :=
  (LineReader.openFile fs (pathOf roots m)).map fun reader => { reader, scope := m.scope }

def isSection (marker line : Text) : Bool :=
  Text.startsWith marker line ||
    (Keyword.leading line == Scope.globalKeyword && Text.contains marker line)

inductive Reading where
  -- nothing: blank, comment, or not accepted
  | nothing
  | section
  | line (t : Text)
deriving DecidableEq, Repr

def accepted (scope : Scope) (t : Text) : Reading × Bool :=
  let (t, inComment) := Comment.stripBlock (Comment.stripLine t false) false false
  let t := Text.trim t
  if t ≠ [] && scope.accepts (Keyword.leading t) then (.line t, inComment)
  else (.nothing, inComment)

def classify (scope : Scope) (inComment : Bool) (t : Text) : Reading × Bool :=
  if t = [] then (.nothing, inComment)
  else
    let text := if inComment then (Comment.resume t true).rest else some t
    let stillOpen := if inComment then (Comment.resume t true).active else false
    match text with
    | none => (.nothing, stillOpen)
    | some t =>
      if isSection Package.installOpen t then (.section, stillOpen) else accepted scope t

def nextWithin (fs : Files) (marked : Marked) :
    (fuel : Nat) → Inclusion → Except Fault (Option Text × Inclusion)
  | 0, i => .ok (none, i)
  | fuel + 1, i =>
    match i.reader.nextLogical fs marked with
    | .error e => .error e
    | .ok (none, reader) => .ok (none, { i with reader })
    | .ok (some l, reader) =>
      match classify i.scope i.inComment l.text with
      | (.nothing, inComment) => nextWithin fs marked fuel { i with reader, inComment }
      | (.line t, inComment) => .ok (some t, { i with reader, inComment })
      | (.section, inComment) =>
        match reader.through fs (isSection Package.installClose) with
        | .error e => .error e
        | .ok (_, reader) => nextWithin fs marked fuel { i with reader, inComment }

def next (fs : Files) (marked : Marked) (i : Inclusion) : Except Fault (Option Text × Inclusion) :=
  nextWithin fs marked ((i.reader.pending fs).length + 1) i

end Inclusion

end ScriptFeed
