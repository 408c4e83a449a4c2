import ScriptFeed.Package.Chain
import ScriptFeed.Package.Header
import ScriptFeed.Package.Record

namespace ScriptFeed.Package

structure Installation where
  chain : Chain := {}
  record : Option Record := none
  fullLogging : Bool := false
  quiet : Bool := false
  inProcedure : Bool := false
  id : Text := []
  help : Option Text := none
deriving DecidableEq, Repr

namespace Installation

def write (i : Installation) (e : Entry) (fs : Files) : Files :=
  match i.record with
  | some r => r.write e fs
  | none => fs

def finish (i : Installation) (success : Bool) (fs : Files) : Installation × Files :=
  ({ i with record := none }, i.write (.closed success) fs)

def take (i : Installation) (r : Record) : Installation :=
  { i with record := some r, fullLogging := false, quiet := false, inProcedure := false }

def begin (i : Installation) (r : Record) (fs : Files) : Installation × Files :=
  (i.take r, i.write (.closed false) fs)

def apply (i : Installation) (h : Header) : Installation :=
  { i with id := Text.trim h.name
           fullLogging := i.fullLogging || h.fullLogging
           quiet := i.quiet || h.quiet }

def echo? (i : Installation) (line : Text) : Option Entry :=
  if i.fullLogging then some (if i.inProcedure then .copying line else .evaluating line) else none

def echo (i : Installation) (line : Text) (fs : Files) : Files :=
  match i.echo? line with
  | some e => i.write e fs
  | none => fs

def forPackage (i : Installation) : Installation :=
  { i with fullLogging := false, quiet := false, inProcedure := false, id := [], help := none }

end Installation

end ScriptFeed.Package
