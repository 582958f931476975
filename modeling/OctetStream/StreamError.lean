import OctetStream.Bytes.Hex
import OctetStream.Fault

/-! Why a stream operation fails. Lengths and positions are in octets. -/

namespace OctetStream

inductive StreamError
  | outOfBounds (need left pos : Nat)
  | sourceFailure (text : String)
  | sinkFailure (text : String)
  | malformedInput (text : String)
  | invalidUtf8 (pos : Nat)
  | lengthOverflow (len max : Nat)
  | lengthLimit (len max : Nat)
  | bufferTooSmall (need size : Nat)
  | trailingData (remaining : Nat)
  | io (fault : Fault)
  | capacityOverflow
  deriving DecidableEq, Repr

namespace StreamError

def message : StreamError → String
  | outOfBounds need left pos =>
    s!"unable to read {need} bytes at position {pos}: out of bounds ({left} remaining)"
  | sourceFailure text => s!"source failure: {text}"
  | sinkFailure text => s!"sink failure: {text}"
  | malformedInput text => s!"malformed input: {text}"
  | invalidUtf8 pos => s!"invalid utf-8 in string at position {pos}"
  | lengthOverflow len max => s!"length {len} does not fit the prefix (max {max})"
  | lengthLimit len max => s!"length {len} exceeds payload limit {max}"
  | bufferTooSmall need size => s!"output buffer too small: need {need} bytes, have {size}"
  | trailingData remaining => s!"{remaining} trailing bytes after decode"
  | io fault => s!"I/O error: {fault.text}"
  | capacityOverflow => "capacity overflow"

def isFatal : StreamError → Bool
  | malformedInput _ => true
  | _ => false

def isEnd : StreamError → Bool
  | outOfBounds .. | sourceFailure _ => true
  | _ => false

def ofFault (f : Fault) : StreamError :=
  match f.kind with
  | .unexpectedEnd => sourceFailure f.text
  | .writeZero => sinkFailure f.text
  | _ => io f

def ofHexError (e : Hex.HexError) : StreamError :=
  malformedInput s!"invalid hex: {e.message}"

def noSource : StreamError :=
  sourceFailure "stream has no source"

def noSink : StreamError :=
  sinkFailure "stream has no sink"

def sourceExhausted (got want : Nat) : StreamError :=
  sourceFailure s!"source exhausted after {got} of {want} bytes"

def sinkRefused (accepted offered : Nat) : StreamError :=
  sinkFailure s!"sink accepted {accepted} of {offered} bytes"

end StreamError
end OctetStream
