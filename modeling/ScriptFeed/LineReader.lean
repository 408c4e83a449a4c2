import ScriptFeed.Breakpoint
import ScriptFeed.Comment
import ScriptFeed.Files
import ScriptFeed.Keyword

/-!
Reading lines. A physical line is a piece of the source cut after a line feed, decoded and trimmed;
a logical line joins physical lines that end in the continuation mark. The counter of the reader
is the number of physical lines read so far.

What is read from a file is fetched when it is needed: all that lies behind the last fetched byte
at that time.
-/

namespace ScriptFeed

inductive Stream where
  | memory
  | file (id position : Nat)
  -- a directory: it can be opened, not read
  | directory
deriving DecidableEq, Repr

structure LineReader where
  path : Path
  stream : Stream := .memory
  -- bytes fetched and not read yet
  buffer : Bytes := []
  line : Nat := 0
  -- the end was met; nothing is read after it
  ended : Bool := false
deriving DecidableEq, Repr

structure LogicalLine where
  text : Text
  line : Nat
deriving DecidableEq, Repr

namespace LineReader

def newline : UInt8 := 10

def splitLine : Bytes → Bytes × Bytes
  | [] => ([], [])
  | b :: r =>
    if b = newline then ([b], r)
    else
      let (line, rest) := splitLine r
      (b :: line, rest)

def ofBytes (path : Path) (source : Bytes) : LineReader := { path, buffer := source }

def openFile (fs : Files) (path : Path) : Except Fault LineReader := do
  match ← fs.find path with
  | .file id => .ok { path, stream := .file id 0 }
  | .directory => .ok { path, stream := .directory }

def unfetched (fs : Files) (r : LineReader) : Bytes :=
  match r.stream with
  | .file id position => (fs.bytes id).drop position
  | _ => []

def pending (fs : Files) (r : LineReader) : Bytes := r.buffer ++ r.unfetched fs

def fetch (fs : Files) (r : LineReader) : Except Fault LineReader :=
  match r.stream with
  | .memory => .ok r
  | .directory => .error .isDirectory
  | .file id position =>
    .ok { r with buffer := r.pending fs,
                 stream := .file id (position + (r.unfetched fs).length) }

def prepare (fs : Files) (r : LineReader) : Except Fault LineReader :=
  if r.buffer.contains newline then .ok r else r.fetch fs

def next (fs : Files) (r : LineReader) : Except Fault (Option Text × LineReader) :=
  if r.ended then .ok (none, r)
  else
    match r.prepare fs with
    | .error e => .error e
    | .ok r =>
      if r.buffer = [] then .ok (none, { r with ended := true })
      else
        let (line, rest) := splitLine r.buffer
        .ok (some (Text.trim (Utf8.decodeLine line)), { r with buffer := rest, line := r.line + 1 })

def atEnd (fs : Files) (r : LineReader) : Bool × LineReader :=
  if r.ended then (true, r)
  else if r.buffer ≠ [] then (false, r)
  else
    match r.fetch fs with
    | .ok r => (r.buffer.isEmpty, r)
    | .error _ => (false, r)

def gatherWithin {σ : Type} (fs : Files) (more : σ → Bool) (add : σ → Text → σ) :
    (fuel : Nat) → σ → LineReader → Except Fault (σ × LineReader)
  | 0, s, r => .ok (s, r)
  | fuel + 1, s, r =>
    if more s then
      match r.next fs with
      | .error e => .error e
      | .ok (none, r) => .ok (s, r)
      | .ok (some t, r) => gatherWithin fs more add fuel (add s t) r
    else .ok (s, r)

def gather {σ : Type} (fs : Files) (more : σ → Bool) (add : σ → Text → σ) (s : σ)
    (r : LineReader) : Except Fault (σ × LineReader) :=
  gatherWithin fs more add ((r.pending fs).length + 1) s r

structure Passage where
  lines : List Text := []
  closed : Bool := false
deriving DecidableEq, Repr

def through (fs : Files) (stop : Text → Bool) (r : LineReader) :
    Except Fault (Passage × LineReader) :=
  gather fs (!·.closed) (fun p t => ⟨p.lines ++ [t], stop t⟩) {} r

def continuation : Text := ['\\', '\\']

def continues (t : Text) : Bool :=
  continuation.length < Text.utf8Size t && Text.endsWith continuation t

def continued (t next : Text) : Text := t.dropLast.dropLast ++ next

def mark (t : Text) : Text :=
  if Text.startsWith Keyword.breakMark t then t else Keyword.breakMark ++ ' ' :: t

def nextLogical (fs : Files) (marked : Marked) (r : LineReader) :
    Except Fault (Option LogicalLine × LineReader) :=
  match r.next fs with
  | .error e => .error e
  | .ok (none, r) => .ok (none, r)
  | .ok (some t, r) =>
    match r.gather fs continues continued t with
    | .error e => .error e
    | .ok (t, r') =>
      .ok (some ⟨if marked r.path r.line then mark t else t, r.line⟩, r')

end LineReader

end ScriptFeed
