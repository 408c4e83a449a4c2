import ScriptFeed.Text.Search
import ScriptFeed.Text.Word

namespace ScriptFeed.Keyword

def breakMark : Text := ['|', '>']

def unmarked (line : Text) : Text :=
  Text.trimStart ((Text.after? breakMark line).getD line)

def leading (line : Text) : Text := (unmarked line).takeWhile Text.isNameChar

def procedureHere? (t : Text) : Option Text :=
  match Text.after? "procedure".toList t with
  | some (b :: r) =>
    if Text.isBlank b then
      match Text.trimStart r with
      | '$' :: name =>
        match name.takeWhile fun c => !Text.isBlank c && c != '(' with
        | [] => none
        | n => some ('$' :: n)
      | _ => none
    else none
  | _ => none

def procedureLater? : Text → Option Text
  | [] => none
  | c :: r =>
    match if Text.isBlank c || c == '>' then procedureHere? r else none with
    | some name => some name
    | none => procedureLater? r

def procedureName? (line : Text) : Option Text :=
  match procedureHere? line with
  | some name => some name
  | none => procedureLater? line

def startsProcedure (line : Text) : Bool := (procedureName? line).isSome

def endsProcedure (line : Text) : Bool := Text.contains "endprocedure".toList line

end ScriptFeed.Keyword
