import ScriptFeed.Files.Fault
import ScriptFeed.LocalFunction
import ScriptFeed.Path

namespace ScriptFeed

inductive Failure where
  | scriptNotFound (line : Text) (path : Path)
  | cannotOpenLog (line : Text) (path : Path) (cause : Fault)
  | cannotWrite (line : Text) (path : Path) (cause : Fault)
  | versionTooLow (line : Text) (required running : Nat)
  | procedureOutsideInstall (line : Text)
  -- the script ends inside an install header
  | openHeader (line : Text)
  | badDefinition (line : Text) (cause : LocalFunction.Mistake)
  | files (cause : Fault)
deriving DecidableEq, Repr

namespace Failure

def code : Failure → String
  | scriptNotFound .. => "SCRIPT_NOT_FOUND"
  | cannotOpenLog .. => "CANNOT_OPEN_LOGFILE"
  | cannotWrite .. => "CANNOT_READ_FILE"
  | versionTooLow .. => "INSUFFICIENT_RUNTIME_VERSION"
  | procedureOutsideInstall .. => "PROCEDURE_WITHOUT_INSTALL"
  | openHeader .. => "UNTERMINATED_INSTALL_INFO"
  | badDefinition .. => "INVALID_LOCAL_DEFINITION"
  | files .. => "IO"

def message : Failure → String
  | scriptNotFound _ path => "script not found: " ++ String.ofList path.text
  | cannotOpenLog _ path cause =>
    "cannot open installation log " ++ String.ofList path.text ++ ": " ++ cause.message
  | cannotWrite _ path cause =>
    "cannot write file " ++ String.ofList path.text ++ ": " ++ cause.message
  | versionTooLow _ required running =>
    s!"package requires runtime version {required}, running {running}"
  | procedureOutsideInstall line =>
    "procedure definition outside of an install section: " ++ String.ofList line
  | openHeader line => "install header is missing <endinfo>: " ++ String.ofList line
  | badDefinition line cause =>
    "invalid local function definition (" ++ cause.message ++ "): " ++ String.ofList line
  | files cause => cause.message

def line : Failure → Text
  | scriptNotFound line _ => line
  | cannotOpenLog line _ _ => line
  | cannotWrite line _ _ => line
  | versionTooLow line _ _ => line
  | procedureOutsideInstall line => line
  | openHeader line => line
  | badDefinition line _ => line
  | files _ => []

def path? : Failure → Option Path
  | scriptNotFound _ path => some path
  | cannotOpenLog _ path _ => some path
  | cannotWrite _ path _ => some path
  | _ => none

end Failure

end ScriptFeed
