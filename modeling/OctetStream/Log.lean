import OctetStream.ByteOrder
import OctetStream.StreamError

/-! What streams and codecs report as they work. A journal keeps the entries, the latest first.
Octets are shown between quotes where they are printable ASCII, else as hexadecimal digits; of more
than sixteen only the first are shown, with a note of how many there are. -/

namespace OctetStream

namespace Preview

def limit : Nat := 16

def isPrintable (c : UInt8) : Bool :=
  0x20 ≤ c && c ≤ 0x7e

def render (b : Bytes) : String :=
  if b.all isPrintable then
    "b\"" ++ String.ofList (b.map fun c => Char.ofNat c.toNat) ++ "\""
  else "0x" ++ Hex.encode b

def preview (b : Bytes) : String :=
  if b.length ≤ limit then render b
  else s!"{render (b.take limit)}.. ({b.length} bytes)"

end Preview

inductive LogLevel
  | trace
  | debug
  deriving DecidableEq, Repr

inductive LogEntry
  | bufferNew (order : ByteOrder) (capacity : Nat)
  | bufferLoaded (data : Bytes) (order : ByteOrder)
  | bufferReset (size : Nat)
  | bufferReadFailed (error : StreamError)
  | compositeReadFailed (start : Nat) (error : StreamError)
  | channelNew (source sink : Bool) (order : ByteOrder)
  | channelReadFailed (wanted offset : Nat) (error : StreamError)
  | channelWriteFailed (offered : Nat) (error : StreamError)
  | leftAfterDecode (remaining : Nat)
  deriving DecidableEq, Repr

abbrev Journal := List LogEntry

namespace LogEntry

def level : LogEntry → LogLevel
  | bufferNew .. | bufferLoaded .. | bufferReset _ | channelNew .. => .trace
  | bufferReadFailed _ | compositeReadFailed .. | channelReadFailed .. | channelWriteFailed ..
  | leftAfterDecode _ => .debug

def message : LogEntry → String
  | bufferNew order capacity => s!"buffer stream: new ({order.display}, capacity {capacity})"
  | bufferLoaded data order => s!"buffer stream: from {Preview.preview data} ({order.display})"
  | bufferReset size => s!"buffer stream: reset after {size} bytes"
  | bufferReadFailed error => s!"buffer stream: read failed: {error.message}"
  | compositeReadFailed start error =>
    s!"buffer stream: composite read at {start} failed: {error.message}"
  | channelNew source sink order =>
    s!"channel stream: new (source: {source}, sink: {sink}, {order.display})"
  | channelReadFailed wanted offset error =>
    s!"channel stream: read of {wanted} bytes at {offset} failed: {error.message}"
  | channelWriteFailed offered error =>
    s!"channel stream: write of {offered} bytes failed: {error.message}"
  | leftAfterDecode remaining => s!"codec: {remaining} bytes left after decode"

def render (entry : LogEntry) : String :=
  let label := match entry.level with
    | .trace => "TRACE"
    | .debug => "DEBUG"
  s!"{label} {entry.message}"

end LogEntry
end OctetStream
