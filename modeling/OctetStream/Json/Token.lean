/-! JSON text as tokens. One pass over the characters finds words (numbers and names), strings and
punctuation.

The JSON library reads the grammar strictly: four kinds of blanks and no comments, no sign or zero
in front of a number that the grammar does not have, no control characters in strings. What nobody
asks for it checks for its grammar alone, so a number may be of any size here, and an escape may
name half of a surrogate pair. `Json.text?` is the reading of a string that is asked for, which must
be text: there the halves of a pair join to one character, and half a pair is refused. -/

namespace OctetStream.Json

/-- One character of a string, or one UTF-16 code unit given by a numeric escape. -/
inductive StringUnit
  | char (c : Char)
  | code (unit : Nat)
  deriving DecidableEq, Repr

inductive Token
  | openArray
  | closeArray
  | openObject
  | closeObject
  | colon
  | comma
  | null
  | bool (value : Bool)
  | number (text : List Char)
  | string (units : List StringUnit)
  deriving DecidableEq, Repr

def isBlank (c : Char) : Bool :=
  c == ' ' || c == '\n' || c == '\r' || c == '\t'

/-! ## Words -/

def isWordChar (c : Char) : Bool :=
  c.isAlphanum || c == '+' || c == '-' || c == '.'

def isExponentDigits : List Char → Bool
  | '+' :: c :: cs | '-' :: c :: cs => (c :: cs).all Char.isDigit
  | c :: cs => (c :: cs).all Char.isDigit
  | [] => false

def isExponent : List Char → Bool
  | [] => true
  | 'e' :: cs | 'E' :: cs => isExponentDigits cs
  | _ => false

def isFraction : List Char → Bool
  | '.' :: c :: cs => c.isDigit && isExponent (cs.dropWhile Char.isDigit)
  | cs => isExponent cs

def isUnsigned : List Char → Bool
  | '0' :: cs => isFraction cs
  | c :: cs => c.isDigit && isFraction (cs.dropWhile Char.isDigit)
  | [] => false

def isNumber : List Char → Bool
  | '-' :: cs => isUnsigned cs
  | cs => isUnsigned cs

def Token.ofWord? (word : List Char) : Option Token :=
  if word = "null".toList then some .null
  else if word = "true".toList then some (.bool true)
  else if word = "false".toList then some (.bool false)
  else if isNumber word then some (.number word)
  else none

/-! ## Scanning -/

def Token.ofPunctuation? : Char → Option Token
  | '[' => some .openArray
  | ']' => some .closeArray
  | '\x7b' => some .openObject
  | '\x7d' => some .closeObject
  | ':' => some .colon
  | ',' => some .comma
  | _ => none

def escaped? : Char → Option Char
  | '"' => some '"'
  | '\\' => some '\\'
  | '/' => some '/'
  | 'b' => some '\x08'
  | 'f' => some '\x0c'
  | 'n' => some '\n'
  | 'r' => some '\r'
  | 't' => some '\t'
  | _ => none

def hexValue? (c : Char) : Option Nat :=
  if c.isDigit then some (c.toNat - '0'.toNat)
  else if 'a' ≤ c ∧ c ≤ 'f' then some (c.toNat - 'a'.toNat + 10)
  else if 'A' ≤ c ∧ c ≤ 'F' then some (c.toNat - 'A'.toNat + 10)
  else none

inductive Mode
  | blank
  | word (seen : List Char)
  | string (seen : List StringUnit)
  | escape (seen : List StringUnit)
  -- In a numeric escape, with `left` digits to come after `value`.
  | hex (seen : List StringUnit) (left value : Nat)
  deriving DecidableEq, Repr

structure Scan where
  mode : Mode := .blank
  found : List Token := []
  deriving DecidableEq, Repr

namespace Scan

def start (found : List Token) (c : Char) : Option Scan :=
  if isBlank c then some ⟨.blank, found⟩
  else if c = '"' then some ⟨.string [], found⟩
  else if isWordChar c then some ⟨.word [c], found⟩
  else (Token.ofPunctuation? c).map fun t => ⟨.blank, t :: found⟩

def step (s : Scan) (c : Char) : Option Scan :=
  match s.mode with
  | .blank => start s.found c
  | .word seen =>
    if isWordChar c then some { s with mode := .word (c :: seen) }
    else
      match Token.ofWord? seen.reverse with
      | some t => start (t :: s.found) c
      | none => none
  | .string seen =>
    if c = '"' then some ⟨.blank, .string seen.reverse :: s.found⟩
    else if c = '\\' then some { s with mode := .escape seen }
    else if c < ' ' then none
    else some { s with mode := .string (.char c :: seen) }
  | .escape seen =>
    if c = 'u' then some { s with mode := .hex seen 4 0 }
    else (escaped? c).map fun e => { s with mode := .string (.char e :: seen) }
  | .hex seen left value =>
    (hexValue? c).map fun d =>
      let value := 16 * value + d
      if left ≤ 1 then { s with mode := .string (.code value :: seen) }
      else { s with mode := .hex seen (left - 1) value }

def finish? (s : Scan) : Option (List Token) :=
  match s.mode with
  | .blank => some s.found.reverse
  | .word seen => (Token.ofWord? seen.reverse).map fun t => (t :: s.found).reverse
  | _ => none

end Scan

def tokens? (text : List Char) : Option (List Token) :=
  match text.foldlM Scan.step {} with
  | some s => s.finish?
  | none => none

/-! ## Strings read strictly -/

def isHighSurrogate (n : Nat) : Bool :=
  0xd800 ≤ n && n ≤ 0xdbff

def isLowSurrogate (n : Nat) : Bool :=
  0xdc00 ≤ n && n ≤ 0xdfff

def joinUnits : List Char → List StringUnit → Option (List Char)
  | acc, [] => some acc.reverse
  | acc, .char c :: rest => joinUnits (c :: acc) rest
  | acc, .code hi :: .code lo :: rest =>
    if isHighSurrogate hi then
      if isLowSurrogate lo then
        joinUnits (Char.ofNat (0x10000 + (hi - 0xd800) * 0x400 + (lo - 0xdc00)) :: acc) rest
      else none
    else if isLowSurrogate hi then none
    else joinUnits (Char.ofNat hi :: acc) (.code lo :: rest)
  | acc, .code n :: rest =>
    if isHighSurrogate n || isLowSurrogate n then none
    else joinUnits (Char.ofNat n :: acc) rest

def text? (units : List StringUnit) : Option String :=
  (joinUnits [] units).map String.ofList

end OctetStream.Json
