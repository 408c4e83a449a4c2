import ScriptFeed.Comment.Block

namespace ScriptFeed.Comment

structure Notes where
  text : Text := []
deriving DecidableEq, Repr

namespace Notes

def isEmpty (n : Notes) : Bool := n.text.isEmpty

def push (n : Notes) (line : Text) : Notes := ⟨n.text ++ line ++ ['\n']⟩

def append (n : Notes) (line : Text) : Notes := if n.isEmpty then n else n.push line

def attachTo (n : Notes) (line : Text) : Text × Notes := (line ++ n.text, {})

end Notes

def resumeWith (line : Text) (active : Bool) (notes : Notes) : Resumed × Notes :=
  let r := resume line active
  (r, notes.append r.consumed)

end ScriptFeed.Comment
