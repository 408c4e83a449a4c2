import ScriptFeed.Text.Search

/-!
Comment markers and the quoting rule they obey: a marker inside double quotes is text. A quote
counts unless a backslash stands right before it.
-/

namespace ScriptFeed.Comment

def lineMark : Text := ['#', '#']

def lineDocMark : Text := ['#', '#', '!']

def blockOpen : Text := ['#', '*']

def blockDocOpen : Text := ['#', '*', '!']

def blockClose : Text := ['*', '#']

def hasMarker (line : Text) : Bool :=
  Text.contains lineMark line || Text.contains blockOpen line || Text.contains blockClose line

def quotedAfter (prev c : Char) (quoted : Bool) : Bool :=
  if c == '"' && prev != '\\' then !quoted else quoted

def lineStart : Char := '\n'

end ScriptFeed.Comment
