import OctetStream.Bytes

/-! Hexadecimal text, two digits for an octet, the high one first, as the hex library documents it.
Writing uses lower-case digits. Reading takes digits of either case and nothing else, no prefix and
no blanks; it refuses an odd number of octets before it looks at any, and then names the first octet
that is no digit and its index. The messages are those of the library, in which an octet is shown as
the character of its code, between quotes and escaped where it does not print. -/

namespace OctetStream.Hex

inductive HexError
  | oddLength
  | badDigit (octet : UInt8) (index : Nat)
  deriving DecidableEq, Repr

def digit (n : Nat) : Char :=
  (n % 16).digitChar

def encode (b : Bytes) : String :=
  String.ofList (b.flatMap fun c => [digit (c.toNat / 16), digit c.toNat])

def value? (c : UInt8) : Option UInt8 :=
  if 0x30 ≤ c ∧ c ≤ 0x39 then some (c - 0x30)
  else if 0x61 ≤ c ∧ c ≤ 0x66 then some (c - 0x61 + 10)
  else if 0x41 ≤ c ∧ c ≤ 0x46 then some (c - 0x41 + 10)
  else none

/-- Reads pairs of digits from index `i` on; `acc` holds the octets so far, the latest first. -/
def decodePairs : Nat → Bytes → Bytes → Except HexError Bytes
  | i, acc, hi :: lo :: rest =>
    match value? hi with
    | none => .error (.badDigit hi i)
    | some h =>
      match value? lo with
      | none => .error (.badDigit lo (i + 1))
      | some l => decodePairs (i + 2) ((h * 16 + l) :: acc) rest
  | _, acc, _ => .ok acc.reverse

def decode (text : Bytes) : Except HexError Bytes :=
  if text.length % 2 = 1 then .error .oddLength else decodePairs 0 [] text

def quoted (c : UInt8) : String :=
  let shown : String :=
    if c = 0x00 then "\\0"
    else if c = 0x09 then "\\t"
    else if c = 0x0a then "\\n"
    else if c = 0x0d then "\\r"
    else if c = 0x27 then "\\'"
    else if c = 0x5c then "\\\\"
    else if c < 0x20 ∨ (0x7f ≤ c ∧ c ≤ 0xa0) ∨ c = 0xad then
      "\\u\x7b" ++ String.ofList (Nat.toDigits 16 c.toNat) ++ "\x7d"
    else String.singleton (Char.ofNat c.toNat)
  "'" ++ shown ++ "'"

def HexError.message : HexError → String
  | .oddLength => "Odd number of digits"
  | .badDigit c i => s!"Invalid character {quoted c} at position {i}"

end OctetStream.Hex
