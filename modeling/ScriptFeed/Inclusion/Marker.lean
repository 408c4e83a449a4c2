import ScriptFeed.Keyword

namespace ScriptFeed

inductive Scope where
  | all
  | defines
  | globals
  | procedures
deriving DecidableEq, Repr

namespace Scope

def definitionKeywords : List Text :=
  ["define", "ifndef", "ifndefined", "redefine", "redef", "lclfunc"].map String.toList

def globalKeyword : Text := "global".toList

def accepts (s : Scope) (keyword : Text) : Bool :=
  match s with
  | all | procedures => definitionKeywords.contains keyword || keyword == globalKeyword
  | defines => definitionKeywords.contains keyword
  | globals => keyword == globalKeyword

def ofSuffix (t : Text) : Scope :=
  match Text.cutAt ':' t with
  | none => all
  | some (_, s) =>
    if Text.contains "defines".toList s then defines
    else if Text.contains "globals".toList s then globals
    else if Text.contains "procedures".toList s then procedures
    else all

end Scope

structure Marker where
  name : Text
  scope : Scope
deriving DecidableEq, Repr

namespace Marker

/-- A colon after one ASCII character and before a slash belongs to a drive. -/
def isDriveColon (before after : Text) : Bool :=
  match before, after with
  | [c], '/' :: _ => c.utf8Size == 1
  | [c], '\\' :: _ => c.utf8Size == 1
  | _, _ => false

def splitBare (t : Text) : Text × Text :=
  let word := t.takeWhile (· ≠ ' ')
  match Text.cutLast ':' word with
  | some (name, suffix) =>
    if isDriveColon name suffix then (word, t.drop word.length)
    else (name, ':' :: suffix ++ t.drop word.length)
  | none => (word, t.drop word.length)

def parse? : Text → Option Marker
  | '@' :: '"' :: r =>
    match Text.cutAt '"' r with
    | some (name, suffix) => some ⟨name, .ofSuffix suffix⟩
    | none => some ⟨r, .all⟩
  | '@' :: c :: r =>
    if c = ' ' then none
    else
      let (name, suffix) := splitBare (c :: r)
      some ⟨name, .ofSuffix suffix⟩
  | _ => none

end Marker

end ScriptFeed
