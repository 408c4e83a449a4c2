import ScriptFeed.Text

namespace ScriptFeed.Text

def after? : (pat t : Text) → Option Text
  | [], t => some t
  | _ :: _, [] => none
  | p :: ps, c :: cs => if p = c then after? ps cs else none

def startsWith (pat t : Text) : Bool := (after? pat t).isSome

def endsWith (pat t : Text) : Bool := startsWith pat.reverse t.reverse

def cut (pat : Text) : Text → Option (Text × Text)
  | [] => if pat = [] then some ([], []) else none
  | c :: r =>
    match after? pat (c :: r) with
    | some rest => some ([], rest)
    | none => (cut pat r).map fun (a, b) => (c :: a, b)

def contains (pat t : Text) : Bool := (cut pat t).isSome

def cutAt (x : Char) (t : Text) : Option (Text × Text) := cut [x] t

def cutLast (x : Char) : Text → Option (Text × Text)
  | [] => none
  | c :: r =>
    match cutLast x r with
    | some (a, b) => some (c :: a, b)
    | none => if c = x then some ([], r) else none

def pieces (x : Char) : Text → List Text
  | [] => [[]]
  | c :: r =>
    if c = x then [] :: pieces x r
    else
      match pieces x r with
      | [] => [[c]]
      | p :: ps => (c :: p) :: ps

def join (x : Char) : List Text → Text
  | [] => []
  | [p] => p
  | p :: q :: ps => p ++ x :: join x (q :: ps)

def replaceFrom (pat new : Text) : (skip : Nat) → Text → Text
  -- `skip` characters belong to the occurrence replaced last
  | _, [] => []
  | n + 1, _ :: r => replaceFrom pat new n r
  | 0, c :: r =>
    if startsWith pat (c :: r) then new ++ replaceFrom pat new (pat.length - 1) r
    else c :: replaceFrom pat new 0 r

def replaceAll (pat new t : Text) : Text := replaceFrom pat new 0 t

/-- The text after its first `n` UTF-8 bytes; nothing if the cut is outside the text or inside
a character. -/
def dropBytes : (n : Nat) → Text → Option Text
  | 0, t => some t
  | _ + 1, [] => none
  | n + 1, c :: r => if c.utf8Size ≤ n + 1 then dropBytes (n + 1 - c.utf8Size) r else none

end ScriptFeed.Text
