import ScriptFeed.Text.Word

namespace ScriptFeed.Version

inductive Unread where
  | malformed
  | tooLarge
deriving DecidableEq, Repr

/-- Reads decimal digits from left to right; the first bad digit or the first digit that takes
the number to `bound` decides. -/
def readDigits (bound : Nat) : (value : Nat) → Text → Except Unread Nat
  | n, [] => .ok n
  | n, c :: r =>
    if Text.isDigit c then
      let n := n * 10 + (c.toNat - '0'.toNat)
      if n < bound then readDigits bound n r else .error .tooLarge
    else .error .malformed

def readNumber (bound : Nat) : Text → Except Unread Nat
  | [] => .error .malformed
  | ['+'] => .error .malformed
  | '+' :: r => readDigits bound 0 r
  | t => readDigits bound 0 t

def digits (t : Text) : Text := (Text.trim t).filter (· ≠ '.')

def flatten? (t : Text) : Option Nat := (readNumber (Nat.pow 2 32) (digits t)).toOption

/-- The version that a package asks for. What is no number asks for nothing. -/
def required (t : Text) : Nat :=
  match readNumber (Nat.pow 2 64) (digits t) with
  | .ok n => n
  | .error .tooLarge => Nat.pow 2 64 - 1
  | .error .malformed => 0

def release : String := "0.1.0"

def build : Nat := 10

end ScriptFeed.Version
