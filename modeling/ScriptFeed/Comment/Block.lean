import ScriptFeed.Comment

/-!
Block comments. `stripBlock` removes those that begin on a line and tells whether one is left
open, `resume?` continues an open one on the next line, and `eraseBlocks` removes them from an
assembled text without regard to quotes.
-/

namespace ScriptFeed.Comment

structure Stripped where
  text : Text
  opened : Bool
deriving DecidableEq, Repr

def Stripped.keep (c : Char) (s : Stripped) : Stripped := { s with text := c :: s.text }

/-- Removes block comments, `inside` one or not; nothing if a documentation comment that is kept
begins. `prev` is the character kept last. -/
def dropBlocks (keepDocs : Bool) :
    (inside : Bool) → (prev : Char) → (quoted : Bool) → Text → Option Stripped
  | inside, _, _, [] => some ⟨[], inside⟩
  | true, prev, quoted, '*' :: '#' :: r => dropBlocks keepDocs false prev quoted r
  | true, prev, quoted, _ :: r => dropBlocks keepDocs true prev quoted r
  | false, prev, quoted, [c] =>
    (dropBlocks keepDocs false c (quotedAfter prev c quoted) []).map (·.keep c)
  | false, prev, quoted, c :: d :: r =>
    let quoted' := quotedAfter prev c quoted
    if !quoted' && keepDocs && Text.startsWith blockDocOpen (c :: d :: r) then none
    else if !quoted' && c == '#' && d == '*' then dropBlocks keepDocs true prev quoted' r
    else (dropBlocks keepDocs false c quoted' (d :: r)).map (·.keep c)

def scanBlock (line : Text) (keepDocs active : Bool) : Text × Bool :=
  match dropBlocks keepDocs false lineStart false line with
  | some s => (s.text, s.opened || active)
  | none => (line, active)

/-- Removes the block comments that begin on a line. The flag tells whether a block comment is
open, before and after. Lines without any marker are not scanned. -/
def stripBlock (line : Text) (keepDocs active : Bool) : Text × Bool :=
  if line = blockOpen then ([], true)
  else if !hasMarker line then (line, active)
  else scanBlock line keepDocs active

structure Resumed where
  consumed : Text
  rest : Option Text
  active : Bool
deriving DecidableEq, Repr

def resume (line : Text) (active : Bool) : Resumed :=
  match Text.cut blockClose line with
  | some (body, rest) => ⟨body ++ blockClose, if rest = [] then none else some rest, false⟩
  | none => ⟨line, none, active⟩

def eraseFrom : (inside : Bool) → (kept : Text) → Text → Text
  -- `kept` has its last character first, so an opener may be made of a sign that was kept
  | _, kept, [] => kept.reverse
  | true, kept, '*' :: '#' :: r => eraseFrom false kept r
  | true, kept, _ :: r => eraseFrom true kept r
  | false, '#' :: kept, '*' :: r => eraseFrom true kept r
  | false, kept, c :: r => eraseFrom false (c :: kept) r

/-- Removes every block comment, whatever is quoted, and the text after an opener without an end.
What becomes an opener because a comment between its characters is gone counts too. -/
def eraseBlocks (t : Text) : Text := eraseFrom false [] t

end ScriptFeed.Comment
