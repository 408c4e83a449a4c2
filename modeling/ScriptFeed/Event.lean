import ScriptFeed.Failure
import ScriptFeed.Inclusion.Marker
import ScriptFeed.Package.Record
import ScriptFeed.Settings
import ScriptFeed.Text.Quoted

namespace ScriptFeed

inductive Level where
  | debug
  | info
  | warn
deriving DecidableEq, Repr

def Level.name : Level → String
  | debug => "DEBUG"
  | info => "INFO"
  | warn => "WARN"

inductive Event where
  | settingsFaulty (file : Path) (report : Settings.Report)
  | settingsLoaded (file : Path)
  | settingsUnreadable (file : Path) (cause : Fault)
  | breakpointIgnored (line : Nat)
  | scriptOpened (path : Path)
  | scriptUnreadable (path : Path) (cause : Fault)
  | scriptClosed
  | scriptRestarted (path : Path)
  | scriptAborted (failure : Failure) (line : Nat)
  | chainFinished (packages : Nat)
  | nextPackage (path : Path)
  | includeUnnamed (line : Text)
  | includeOpened (path : Path) (scope : Scope)
  | includeExhausted (path : Path)
  | includeInComment (path : Path)
  | includeClosed (path : Path) (scope : Scope)
  | functionDefined (name : Text) (arity : Nat)
  | sectionSkipped (line : Nat)
  | installationStarted (script : Text)
  | packageQueued (path : Path)
  | licenseDeclined (package : Text)
  | articlesMissing (package : Text)
  | documentationWritten (path : Path)
  | layoutOpen (file : Text)
  | layoutWritten (path : Path) (lines : Nat)
  | recordOpened (path : Path)
  | recordClosed (path : Path) (success : Bool)
  | recorded (path : Path) (entry : Package.Entry)
deriving DecidableEq, Repr

def Scope.label : Scope → String
  | all => "All"
  | defines => "Defines"
  | globals => "Globals"
  | procedures => "Procedures"

structure Diagnostic where
  level : Level
  message : String
  fields : List (String × String) := []

def Diagnostic.render (d : Diagnostic) : String :=
  let message := String.ofList (Text.disarmed d.message.toList)
  " ".intercalate (d.level.name :: message :: d.fields.map fun (k, v) => k ++ "=" ++ v)

namespace Event

def shown (p : Path) : String := String.ofList p.text

def diagnostic? : Event → Option Diagnostic
  | settingsFaulty file report =>
    some ⟨.warn, "config: " ++ report.message, [("file", shown file)]⟩
  | settingsLoaded file => some ⟨.debug, "config loaded", [("file", shown file)]⟩
  | settingsUnreadable file cause =>
    some ⟨.warn, "cannot read config", [("file", shown file), ("error", cause.message)]⟩
  | breakpointIgnored line =>
    some ⟨.warn, "breakpoint without a resolvable file ignored", [("line", toString line)]⟩
  | scriptOpened path => some ⟨.info, "script opened", [("path", shown path)]⟩
  | scriptUnreadable path cause =>
    some ⟨.warn, "cannot open script", [("path", shown path), ("error", cause.message)]⟩
  | scriptClosed => some ⟨.debug, "script closed", []⟩
  | scriptRestarted path => some ⟨.debug, "script restarted", [("path", shown path)]⟩
  | scriptAborted failure line =>
    some ⟨.warn, "script aborted: " ++ failure.message,
      [("code", "\"" ++ failure.code ++ "\""), ("line", toString line)]⟩
  | chainFinished packages =>
    some ⟨.info, "installation chain finished", [("packages", toString packages)]⟩
  | nextPackage path => some ⟨.info, "continuing with next package", [("path", shown path)]⟩
  | includeUnnamed line =>
    some ⟨.warn, "include without a file name skipped", [("line", String.ofList line)]⟩
  | includeOpened path scope =>
    some ⟨.debug, "include opened", [("path", shown path), ("scope", scope.label)]⟩
  | includeExhausted path => some ⟨.debug, "include exhausted", [("path", shown path)]⟩
  | includeInComment path =>
    some ⟨.warn, "include ends inside a block comment", [("path", shown path)]⟩
  | includeClosed path scope =>
    some ⟨.debug, "include closed", [("path", shown path), ("scope", scope.label)]⟩
  | functionDefined name arity =>
    some ⟨.debug, "local function defined",
      [("name", String.ofList name), ("arity", toString arity)]⟩
  | sectionSkipped line => some ⟨.debug, "install section skipped", [("line", toString line)]⟩
  | installationStarted script =>
    some ⟨.info, "installation started", [("script", String.ofList script)]⟩
  | packageQueued path => some ⟨.debug, "package queued", [("package", shown path)]⟩
  | licenseDeclined package =>
    some ⟨.info, "license declined", [("package", String.ofList package)]⟩
  | articlesMissing package =>
    some ⟨.warn, "helpfile without articles", [("install_id", String.ofList package)]⟩
  | documentationWritten path => some ⟨.info, "documentation written", [("path", shown path)]⟩
  | layoutOpen file =>
    some ⟨.warn, "layout ends without endlayout", [("file", String.ofList (Text.quoted file))]⟩
  | layoutWritten path lines =>
    some ⟨.debug, "layout written", [("path", shown path), ("lines", toString lines)]⟩
  | recordOpened path => some ⟨.debug, "install log opened", [("path", shown path)]⟩
  | recordClosed path success =>
    some ⟨.debug, "install log closed", [("path", shown path), ("success", toString success)]⟩
  | recorded .. => none

end Event

end ScriptFeed
