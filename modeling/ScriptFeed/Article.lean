import ScriptFeed.Comment.Line
import ScriptFeed.LineReader
import ScriptFeed.Text.WordClass

namespace ScriptFeed.Article

def normalizeId (id : Text) : Text :=
  if Text.startsWith "plgn_".toList id || Text.startsWith "pkg_".toList id then id
  else "plgn_".toList ++ id

def tagOpen : Text := "<article".toList

def tagClose : Text := "</article>".toList

inductive Part where
  | plain (c : Char)
  | article (attrs content : Text)
deriving DecidableEq, Repr

def here? (t : Text) : Option (Text × Text × Text) :=
  match Text.after? tagOpen t with
  | none => none
  | some r =>
    if r.head?.any Text.isWordChar then none
    else
      match Text.cutAt '>' r with
      | none => none
      | some (attrs, r) =>
        match Text.cut tagClose r with
        | none => none
        | some (content, r) => some (attrs, content, r)

def partsFrom : (skip : Nat) → Text → List Part
  -- `skip` characters belong to the article read last
  | _, [] => []
  | skip + 1, _ :: r => partsFrom skip r
  | 0, c :: r =>
    match here? (c :: r) with
    | some (attrs, content, rest) =>
      .article attrs content :: partsFrom (r.length - rest.length) r
    | none => .plain c :: partsFrom 0 r

def parts (t : Text) : List Part := partsFrom 0 t

def Part.render : Part → Text
  | plain c => [c]
  | article attrs content => tagOpen ++ attrs ++ '>' :: content ++ tagClose

def render (ps : List Part) : Text := ps.flatMap Part.render

def idHere? (t : Text) : Option (Text × Text × Text) :=
  match Text.after? ['i', 'd'] t with
  | none => none
  | some r =>
    match Text.trimStart r with
    | '=' :: r =>
      match Text.trimStart r with
      | '"' :: r =>
        match Text.cutAt '"' r with
        | some (id, rest) => some (t.take (t.length - r.length), id, '"' :: rest)
        | none => none
      | _ => none
    | _ => none

def findId? : (inWord : Bool) → Text → Option (Text × Text × Text)
  | _, [] => none
  | inWord, c :: r =>
    match if inWord then none else idHere? (c :: r) with
    | some found => some found
    | none =>
      (findId? (Text.isWordChar c) r).map fun (before, id, rest) => (c :: before, id, rest)

def normalizeAttrs (attrs : Text) : Text × Option Text :=
  match findId? false attrs with
  | some (before, id, rest) => (before ++ normalizeId id ++ rest, some (normalizeId id))
  | none => (attrs, none)

def keywords (package : Text) : Text :=
  "<keywords><keyword>".toList ++ package ++ "</keyword></keywords>".toList

def normalizeContent (package content : Text) : Text :=
  if Text.contains "<keywords".toList content then content else keywords package ++ content

def Part.normalize (package : Text) : Part → Part
  | plain c => .plain c
  | article attrs content => .article (normalizeAttrs attrs).1 (normalizeContent package content)

def Part.id? : Part → Option Text
  | plain _ => none
  | article attrs _ => (normalizeAttrs attrs).2

structure Collection where
  document : Text
  ids : List Text
deriving DecidableEq, Repr

def collect (body package : Text) : Collection :=
  let ps := parts body
  ⟨render (ps.map (·.normalize package)), ps.filterMap (·.id?)⟩

def Collection.first? (c : Collection) : Option Text := c.ids.head?

def fileOpen : Text := "<helpfile>".toList

def fileClose : Text := "</helpfile>".toList

def bodyLines : List Text → Text
  | [] => []
  | line :: rest =>
    let line := Comment.stripLine line false
    match Text.cut fileClose line with
    | some (last, _) => last
    | none => line ++ '\n' :: bodyLines rest

def afterOpen (line : Text) : Text :=
  match Text.cut fileOpen line with
  | some (_, rest) => rest
  | none => line

def readBody (fs : Files) (line : Text) (r : LineReader) : Except Fault (Text × LineReader) :=
  match Text.cut fileClose (afterOpen line) with
  | some (body, _) => .ok (body, r)
  | none =>
    match r.through fs fun t => Text.contains fileClose (Comment.stripLine t false) with
    | .error e => .error e
    | .ok (passage, r) => .ok (afterOpen line ++ '\n' :: bodyLines passage.lines, r)

def fileExtension : Text := ".nhlp".toList

def pathOf (docs : Path) (id : Text) : Path := docs.join ⟨id ++ fileExtension⟩

def save (fs : Files) (docs : Path) (id document : Text) : Except Fault Unit × Files :=
  match fs.createDirectories docs with
  | (.error e, fs) => (.error e, fs)
  | (.ok (), fs) =>
    match fs.write (pathOf docs id) (Utf8.encode document) with
    | .error e => (.error e, fs)
    | .ok fs => (.ok (), fs)

end ScriptFeed.Article
