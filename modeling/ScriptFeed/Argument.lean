import ScriptFeed.Text.Search
import ScriptFeed.Text.Word
import ScriptFeed.Comment

namespace ScriptFeed.Argument

/-- The inside of a quoted value: up to the first quote without a backslash. A backslash before a
quote is dropped, any other is kept with the character after it. -/
def unquote : Text → Text
  | [] => []
  | ['\\'] => ['\\']
  | '\\' :: '"' :: r => '"' :: unquote r
  | '\\' :: c :: r => '\\' :: c :: unquote r
  | '"' :: _ => []
  | c :: r => c :: unquote r

def read (t : Text) : Text :=
  match Text.trimStart t with
  | '"' :: r => unquote r
  | r => r.takeWhile fun c => !Text.isBlank c

def readAt (t : Text) (offset : Nat) : Text :=
  match Text.dropBytes offset t with
  | some r => read r
  | none => []

/-- The text through `needle` and the text after it, for the first `needle` outside quotes that
does not continue a word. -/
def locate (needle : Text) : (prev : Char) → (quoted : Bool) → Text → Option (Text × Text)
  | _, _, [] => none
  | prev, quoted, c :: r =>
    if c == '"' && prev != '\\' then (locate needle c (!quoted) r).map fun (a, b) => (c :: a, b)
    else
      match if quoted || Text.isNameChar prev then none else Text.after? needle (c :: r) with
      | some rest => some (needle, rest)
      | none => (locate needle c quoted r).map fun (a, b) => (c :: a, b)

def find? (t key : Text) : Option (Text × Text) := locate (key ++ ['=']) Comment.lineStart false t

def offset? (t key : Text) : Option Nat := (find? t key).map fun (a, _) => Text.utf8Size a

def value? (t key : Text) : Option Text := (find? t key).map fun (_, b) => read b

def list (t : Text) : List Text :=
  ((Text.pieces ',' t).map fun p => Text.trim (Text.trimOf '"' (Text.trim p))).filter (· ≠ [])

end ScriptFeed.Argument
