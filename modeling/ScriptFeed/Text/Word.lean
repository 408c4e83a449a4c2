import ScriptFeed.Text

namespace ScriptFeed.Text

def isDigit (c : Char) : Bool := '0' ≤ c && c ≤ '9'

def isLetter (c : Char) : Bool := ('a' ≤ c && c ≤ 'z') || ('A' ≤ c && c ≤ 'Z')

def isNameChar (c : Char) : Bool := isLetter c || isDigit c || c == '_'

def isIdentifier : Text → Bool
  | [] => false
  | c :: r => !isDigit c && (c :: r).all isNameChar

end ScriptFeed.Text
