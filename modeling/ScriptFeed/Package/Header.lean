import ScriptFeed.Argument
import ScriptFeed.Comment.Block
import ScriptFeed.Package.Markers
import ScriptFeed.Version

namespace ScriptFeed.Package

def splitInfo? (t : Text) : Option (Text × Text) :=
  match Text.cut infoOpen t with
  | none => none
  | some (_, rest) => Text.cut infoClose rest

structure Header where
  -- the header without block comments, as logged and declared
  text : Text
  name : Text
  packages : List Text
  required : Option Nat
  license : Option Text
  fullLogging : Bool
  quiet : Bool
deriving DecidableEq, Repr

namespace Header

def value? (t : Text) (key : String) : Option Text := Argument.value? t key.toList

def ofText (t : Text) : Header :=
  let flags := (value? t "flags").getD []
  { text := t
    name := (value? t "name").getD []
    packages := ((value? t "requirepackages").map Argument.list).getD []
    required := (value? t "requireversion").map Version.required
    license := value? t "license"
    fullLogging := Text.contains "ENABLE_FULL_LOGGING".toList flags
    quiet := Text.contains "DISABLE_SCREEN_OUTPUT".toList flags }

def parse (t : Text) : Header := ofText (Text.trim (Comment.eraseBlocks t))

end Header

end ScriptFeed.Package
