import ScriptFeed.Text.Search

namespace ScriptFeed

structure Path where
  text : Text
deriving DecidableEq, Repr, Inhabited

namespace Path

def isIdle (s : Text) : Bool := s == [] || s == ['.']

def anchor (p : Path) : Text :=
  match p.text with
  | '/' :: _ => ['/']
  | ['.'] => ['.']
  | '.' :: '/' :: _ => ['.']
  | _ => []

def body (p : Path) : List Text := Text.pieces '/' (p.text.drop p.anchor.length)

def components (p : Path) : List Text :=
  (if p.anchor = [] then [] else [p.anchor]) ++ p.body.filter (!isIdle ·)

def same (p q : Path) : Bool := p.components == q.components

def isAbsolute (p : Path) : Bool := p.text.head? == some '/'

def join (p q : Path) : Path :=
  if q.isAbsolute then q
  else if p.text = [] || p.text.getLast? == some '/' then ⟨p.text ++ q.text⟩
  else ⟨p.text ++ '/' :: q.text⟩

def backwards (p : Path) : List Text := p.body.reverse.dropWhile isIdle

def rebuild (p : Path) (back : List Text) : Path :=
  ⟨p.anchor ++ Text.join '/' (back.dropWhile isIdle).reverse⟩

def parent? (p : Path) : Option Path :=
  match p.backwards with
  | _ :: back => some (p.rebuild back)
  | [] => if p.anchor = ['.'] then some ⟨[]⟩ else none

def fileName? (p : Path) : Option Text :=
  match p.backwards with
  | name :: _ => if name = ['.', '.'] then none else some name
  | [] => none

/-- A file name cut at its last dot; a dot in front does not count. -/
def splitName (name : Text) : Text × Option Text :=
  match Text.cutLast '.' name with
  | some (stem, ext) => if stem = [] then (name, none) else (stem, some ext)
  | none => (name, none)

def extension? (p : Path) : Option Text := p.fileName?.bind fun name => (splitName name).2

def withExtension (p : Path) (ext : Text) : Path :=
  match p.fileName?, p.backwards with
  | some name, _ :: back =>
    let cut := p.anchor ++ Text.join '/' (back.reverse ++ [(splitName name).1])
    ⟨if ext = [] then cut else cut ++ '.' :: ext⟩
  | _, _ => p

def abbreviated (p : Path) : Text :=
  let full := p.text.map fun c => if c = '\\' then '/' else c
  match Text.pieces '/' full with
  | a :: b :: rest =>
    match rest.reverse with
    | z :: y :: _ :: _ => Text.join '/' [a, b, ['.', '.'], y, z]
    | _ => full
  | _ => full

end Path

end ScriptFeed
