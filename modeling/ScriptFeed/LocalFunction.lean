import ScriptFeed.Keyword

namespace ScriptFeed

structure LocalFunction where
  name : Text
  params : List Text
  body : Text
deriving DecidableEq, Repr

namespace LocalFunction

def keyword : Text := "lclfunc".toList

inductive Mistake where
  | noAssignment
  | emptyBody
  | noParameters
  | openParameters
  | badName
  | badParameter
deriving DecidableEq, Repr

def Mistake.message : Mistake → String
  | noAssignment => "missing ':='"
  | emptyBody => "empty body"
  | noParameters => "missing parameter list"
  | openParameters => "unclosed parameter list"
  | badName => "invalid function name"
  | badParameter => "invalid parameter name"

def isDefinition (line : Text) : Bool := Keyword.leading line == keyword

def definitionText (line : Text) : Text :=
  let line := Keyword.unmarked line
  Text.trim ((Text.after? keyword line).getD line)

def parameters (t : Text) : Except Mistake (List Text) :=
  let t := Text.trim t
  if t = [] then .ok []
  else
    let params := (Text.pieces ',' t).map Text.trim
    if params.all Text.isIdentifier then .ok params else .error .badParameter

def signature (head : Text) : Except Mistake (Text × List Text) :=
  match Text.cutAt '(' head with
  | none => .error .noParameters
  | some (name, rest) =>
    match Text.cutLast ')' rest with
    | none => .error .openParameters
    | some (params, _) =>
      let name := Text.trim name
      if Text.isIdentifier name then (parameters params).map fun params => (name, params)
      else .error .badName

def parse (line : Text) : Except Mistake LocalFunction :=
  match Text.cut [':', '='] (definitionText line) with
  | none => .error .noAssignment
  | some (head, body) =>
    let body := Text.trim body
    if body = [] then .error .emptyBody
    else (signature (Text.trim head)).map fun (name, params) => { name, params, body }

end LocalFunction

structure LocalFunctions where
  defs : List LocalFunction := []
deriving DecidableEq, Repr

namespace LocalFunctions

def size (fs : LocalFunctions) : Nat := fs.defs.length

def isEmpty (fs : LocalFunctions) : Bool := fs.defs.isEmpty

def get? (fs : LocalFunctions) (name : Text) : Option LocalFunction :=
  fs.defs.find? (·.name == name)

def insert (fs : LocalFunctions) (f : LocalFunction) : LocalFunctions :=
  ⟨f :: fs.defs.filter (·.name != f.name)⟩

def define (fs : LocalFunctions) (line : Text) :
    Except LocalFunction.Mistake (LocalFunction × LocalFunctions) :=
  (LocalFunction.parse line).map fun f => (f, fs.insert f)

end LocalFunctions

end ScriptFeed
