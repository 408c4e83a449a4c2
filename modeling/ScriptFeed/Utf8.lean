import ScriptFeed.Text

namespace ScriptFeed

abbrev Bytes := List UInt8

namespace Utf8

def encodeChar (c : Char) : Bytes :=
  let n := c.toNat
  if n < 0x80 then [n.toUInt8]
  else if n < 0x800 then [(0xC0 + n / 0x40).toUInt8, (0x80 + n % 0x40).toUInt8]
  else if n < 0x10000 then
    [(0xE0 + n / 0x1000).toUInt8, (0x80 + n / 0x40 % 0x40).toUInt8, (0x80 + n % 0x40).toUInt8]
  else
    [(0xF0 + n / 0x40000).toUInt8, (0x80 + n / 0x1000 % 0x40).toUInt8,
      (0x80 + n / 0x40 % 0x40).toUInt8, (0x80 + n % 0x40).toUInt8]

def encode (t : Text) : Bytes := t.flatMap encodeChar

def tail? (b : UInt8) : Option Nat :=
  if 0x80 ≤ b.toNat ∧ b.toNat < 0xC0 then some (b.toNat - 0x80) else none

def char? (low n : Nat) : Option Char :=
  if low ≤ n ∧ n.isValidChar then some (Char.ofNat n) else none

def decode? : Bytes → Option Text
  | [] => some []
  | a :: r =>
    if a.toNat < 0x80 then (decode? r).map (Char.ofNat a.toNat :: ·)
    else
      match r with
      | [] => none
      | b :: r =>
        if 0xC0 ≤ a.toNat ∧ a.toNat < 0xE0 then do
          let c ← char? 0x80 ((a.toNat - 0xC0) * 0x40 + (← tail? b))
          return c :: (← decode? r)
        else
          match r with
          | [] => none
          | c :: r =>
            if 0xE0 ≤ a.toNat ∧ a.toNat < 0xF0 then do
              let c ← char? 0x800 (((a.toNat - 0xE0) * 0x40 + (← tail? b)) * 0x40 + (← tail? c))
              return c :: (← decode? r)
            else
              match r with
              | [] => none
              | d :: r =>
                if 0xF0 ≤ a.toNat ∧ a.toNat < 0xF8 then do
                  let c ← char? 0x10000
                    ((((a.toNat - 0xF0) * 0x40 + (← tail? b)) * 0x40 + (← tail? c)) * 0x40 +
                      (← tail? d))
                  return c :: (← decode? r)
                else none

def latin (b : Bytes) : Text := b.map fun x => Char.ofNat x.toNat

/-- UTF-8 if the bytes are UTF-8, otherwise one character for each byte. -/
def decodeLine (b : Bytes) : Text := (decode? b).getD (latin b)

end Utf8

end ScriptFeed
