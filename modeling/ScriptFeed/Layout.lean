import ScriptFeed.Argument
import ScriptFeed.LineReader
import ScriptFeed.Path.Resolve

namespace ScriptFeed

structure Layout where
  file : Text
  header : Text
  body : List Text := []
  complete : Bool
deriving DecidableEq, Repr

namespace Layout

def keyword : Text := "layout".toList

def endKeyword : Text := "endlayout".toList

def fromSpace : (prev : Char) → (quoted : Bool) → Text → Text
  | _, _, [] => []
  | prev, quoted, c :: r =>
    let quoted := Comment.quotedAfter prev c quoted
    if !quoted && c == ' ' then c :: r else fromSpace c quoted r

def upToEnd (t : Text) : Text × Bool :=
  match Text.cut endKeyword t with
  | some (before, _) => (before ++ endKeyword, true)
  | none => (t, false)

def parse? (line : Text) : Option Layout :=
  match Text.after? keyword line with
  | none => none
  | some rest =>
    let rest := Text.trimStart rest
    match Argument.read rest with
    | [] => none
    | file =>
      let (header, complete) := upToEnd (keyword ++ fromSpace Comment.lineStart false rest)
      some { file, header, complete }

def indentBefore (indent : Nat) (line : Text) : Nat :=
  if Text.startsWith "endgroup".toList line || Text.startsWith endKeyword line then indent - 1
  else indent

def indentAfter (indent : Nat) (line : Text) : Nat :=
  if Text.startsWith "group".toList line then indentBefore indent line + 1
  else indentBefore indent line

def indented : (indent : Nat) → List Text → List Text
  | _, [] => []
  | indent, line :: rest =>
    (List.replicate (indentBefore indent line) '\t' ++ (upToEnd line).1) ::
      indented (indentAfter indent line) rest

def readBody (fs : Files) (l : Layout) (r : LineReader) : Except Fault (Layout × LineReader) :=
  if l.complete then .ok (l, r)
  else
    match r.through fs (Text.contains endKeyword) with
    | .error e => .error e
    | .ok (passage, r) =>
      .ok ({ l with body := l.body ++ indented 1 passage.lines, complete := passage.closed }, r)

def render (l : Layout) : Text := (l.header :: l.body).flatMap (· ++ ['\n'])

def fileExtension : Text := ".nlyt".toList

def path (roots : Roots) (l : Layout) : Path :=
  (roots.resolve? l.file fileExtension).getD ⟨l.file⟩

def command (p : Path) : Text := keyword ++ ' ' :: '"' :: p.text ++ ['"']

end Layout

end ScriptFeed
