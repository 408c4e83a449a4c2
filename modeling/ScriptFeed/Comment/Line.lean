import ScriptFeed.Comment

namespace ScriptFeed.Comment

/-- The text before the first marker outside quotes; nothing if that marker begins a documentation
comment that is kept. -/
def beforeLineMark (keepDocs : Bool) : (prev : Char) → (quoted : Bool) → Text → Option Text
  | _, _, [] => some []
  | prev, quoted, c :: r =>
    let quoted := quotedAfter prev c quoted
    if !quoted && keepDocs && Text.startsWith lineDocMark (c :: r) then none
    else if !quoted && Text.startsWith lineMark (c :: r) then some []
    else (beforeLineMark keepDocs c quoted r).map (c :: ·)

def scanLine (line : Text) (keepDocs : Bool) : Text :=
  (beforeLineMark keepDocs lineStart false line).getD line

def stripLine (line : Text) (keepDocs : Bool) : Text :=
  if line = lineMark then []
  else if !hasMarker line then line
  else scanLine line keepDocs

end ScriptFeed.Comment
