import ScriptFeed.Text.Search

namespace ScriptFeed.Package

def installOpen : Text := "<install>".toList

def installClose : Text := "<endinstall>".toList

def infoOpen : Text := "<info>".toList

def infoClose : Text := "<endinfo>".toList

def startMessage : Text := "Starting installation ...".toList

def successMessage : Text := "Installation terminated successfully.".toList

def abortMessage : Text := "Installation aborted: license not accepted.".toList

def licenseMessage (name license : Text) : Text :=
  "Package \"".toList ++ name ++ "\" is distributed under the following license: ".toList ++
    license ++ ". Do you agree? (y/n)".toList

def installingMessage (procedure : Text) : Text :=
  "Installing \"".toList ++ procedure ++ "\" ...".toList

end ScriptFeed.Package
