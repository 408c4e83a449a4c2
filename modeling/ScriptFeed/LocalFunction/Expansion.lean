import ScriptFeed.Comment
import ScriptFeed.LocalFunction

/-!
Expansion of calls. A call of a local function outside quotes, with as many arguments as it has
parameters, becomes its body in parentheses, each parameter replaced by the argument in
parentheses. Passes are repeated until nothing changes or the limit is reached.
-/

namespace ScriptFeed.LocalFunctions

def bound (bindings : List (Text × Text)) (run : Text) : Text :=
  match bindings.lookup run.reverse with
  | some arg => '(' :: arg ++ [')']
  | none => run.reverse

def bindFrom (bindings : List (Text × Text)) : (run : Text) → Text → Text
  -- `run` is the name read so far, last character first
  | run, [] => if run = [] then [] else bound bindings run
  | run, c :: r =>
    if Text.isNameChar c then bindFrom bindings (c :: run) r
    else (if run = [] then [] else bound bindings run) ++ c :: bindFrom bindings [] r

def bind (body : Text) (params args : List Text) : Text := bindFrom (params.zip args) [] body

structure Call where
  args : List Text
  width : Nat
deriving DecidableEq, Repr

def Call.close (args : List Text) (last : Text) : List Text :=
  if args = [] && last = [] then [] else args ++ [last]

def argumentsFrom : (depth : Nat) → (quoted : Bool) → (prev : Char) → (args : List Text) →
    (arg : Text) → (width : Nat) → Text → Option Call
  -- `arg` is the current argument, last character first; `width` counts from the parenthesis on
  | _, _, _, _, _, _, [] => none
  | depth, quoted, prev, args, arg, width, c :: r =>
    let quoted := Comment.quotedAfter prev c quoted
    if quoted then argumentsFrom depth quoted c args (c :: arg) (width + 1) r
    else if c = '(' then argumentsFrom (depth + 1) quoted c args (c :: arg) (width + 1) r
    else if c = ')' then
      if depth ≤ 1 then some ⟨Call.close args (Text.trim arg.reverse), width + 1⟩
      else argumentsFrom (depth - 1) quoted c args (c :: arg) (width + 1) r
    else if c = ',' && depth == 1 then
      argumentsFrom depth quoted c (args ++ [Text.trim arg.reverse]) [] (width + 1) r
    else argumentsFrom depth quoted c args (c :: arg) (width + 1) r

def arguments? (t : Text) : Option Call :=
  let spaces := t.takeWhile (· == ' ')
  match t.dropWhile (· == ' ') with
  | '(' :: r => argumentsFrom 1 false '(' [] [] (spaces.length + 1) r
  | _ => none

def callHere? (fs : LocalFunctions) (t : Text) : Option (Text × Nat) :=
  let word := t.takeWhile Text.isNameChar
  match fs.get? word, arguments? (t.drop word.length) with
  | some f, some call =>
    if call.args.length = f.params.length then
      some ('(' :: bind f.body f.params call.args ++ [')'], word.length + call.width)
    else none
  | _, _ => none

def expandFrom (fs : LocalFunctions) :
    (skip : Nat) → (prev : Char) → (quoted : Bool) → Text → Option Text
  -- `skip` characters belong to a call that was replaced
  | _, _, _, [] => none
  | skip + 1, _, quoted, c :: r => expandFrom fs skip c quoted r
  | 0, prev, quoted, c :: r =>
    let quoted := Comment.quotedAfter prev c quoted
    match
      if quoted || !Text.isNameChar c || Text.isNameChar prev then none
      else callHere? fs (c :: r)
    with
    | some (new, width) =>
      some (new ++ (expandFrom fs (width - 1) c quoted r).getD (r.drop (width - 1)))
    | none => (expandFrom fs 0 c quoted r).map (c :: ·)

def expandOnce (fs : LocalFunctions) (line : Text) : Option Text :=
  expandFrom fs 0 Comment.lineStart false line

def expandWithin (fs : LocalFunctions) : (passes : Nat) → Text → Text
  | 0, line => line
  | passes + 1, line =>
    match fs.expandOnce line with
    | some line => expandWithin fs passes line
    | none => line

def maxPasses : Nat := 32

def substitute (fs : LocalFunctions) (line : Text) : Text :=
  if fs.isEmpty then line else fs.expandWithin maxPasses line

end ScriptFeed.LocalFunctions
