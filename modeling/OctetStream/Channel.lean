import OctetStream.Channel.Transfer
import OctetStream.Log
import OctetStream.Medium
import OctetStream.Options

/-! A stream over a source, a sink or both. It has no size and cannot go back: what a failed read
took from the source is lost. -/

namespace OctetStream

structure Channel where
  source : Option Source
  sink : Option Sink
  order : ByteOrder
  limit : Nat
  consumed : Nat := 0
  counters : Counters := {}
  journal : Journal := []
  deriving DecidableEq, Repr

namespace Channel

def withOptions (source : Option Source) (sink : Option Sink) (o : Options) : Channel where
  source := source
  sink := sink
  order := o.order
  limit := o.payloadLimit
  journal := [.channelNew source.isSome sink.isSome o.order]

def reader (source : Source) (o : Options := {}) : Channel :=
  withOptions (some source) none o

def writer (sink : Sink) (o : Options := {}) : Channel :=
  withOptions none (some sink) o

def duplex (source : Source) (sink : Sink) : Channel :=
  withOptions (some source) (some sink) {}

def hasSource (c : Channel) : Bool :=
  c.source.isSome

def hasSink (c : Channel) : Bool :=
  c.sink.isSome

def supply (c : Channel) : Nat :=
  match c.source with
  | some source => source.cursor.remaining
  | none => 0

def log (entry : LogEntry) (c : Channel) : Channel :=
  { c with journal := entry :: c.journal }

def failRead (want : Nat) (e : StreamError) (c : Channel) : Channel :=
  { c.log (.channelReadFailed want c.consumed e) with counters := c.counters.addReadFailure }

def failWrite (offered : Nat) (e : StreamError) (c : Channel) : Channel :=
  { c.log (.channelWriteFailed offered e) with counters := c.counters.addWriteFailure }

def receive (want : Nat) (c : Channel) : Receipt × Channel :=
  match c.source with
  | none => (⟨[], some .noSource⟩, c.failRead want .noSource)
  | some source =>
    let (delivery, source) := source.fill want
    let c := { c with
      source := some source
      counters := c.counters.addShortReads delivery.shortReads }
    match delivery.stop with
    | none =>
      (⟨delivery.got, none⟩,
        { c with consumed := c.consumed + want, counters := c.counters.addRead want })
    | some stop =>
      let e := stop.sourceError delivery.got.length want
      (⟨delivery.got, some e⟩, c.failRead want e)

def send (data : Bytes) : Action Channel Unit := fun c =>
  match c.sink with
  | none => .error .noSink (c.failWrite data.length .noSink)
  | some sink =>
    let ((accepted, stop), sink) := sink.drain data
    let c := { c with sink := some sink }
    match stop with
    | none => .ok () { c with counters := c.counters.addWrite data.length }
    | some stop =>
      let e := stop.sinkError accepted data.length
      .error e (c.failWrite data.length e)

/-- Without a sink there is nothing to flush. A failure is not counted. -/
def flush : Action Channel Unit := fun c =>
  match c.sink with
  | none => .ok () c
  | some sink =>
    match sink.flush with
    | (.ok (), sink) => .ok () { c with sink := some sink }
    | (.error fault, sink) => .error (.sinkFailure fault.text) { c with sink := some sink }

instance : Medium Channel where
  order := order
  offset := consumed
  counters := counters
  payloadLimit c := some c.limit
  supply := supply
  receive := receive
  send := send
  readBytes := demandAllocated receive
  atomically read := read

end Channel

/-! ## Files

A file is read and written through its path, so what matters is what stands there. -/

inductive Node
  | file (content : Bytes)
  -- Nothing, in a directory that exists.
  | vacant
  -- Nothing, and no directory that could hold it.
  | unreachable
  | directory
  deriving DecidableEq, Repr

namespace Node

def openReader (o : Options) : Node → Except StreamError Channel
  | file content => .ok (.reader (.ofBytes content) o)
  | directory => .ok (.reader { cursor := .start [], broken := some Fault.isDirectory.text } o)
  | vacant | unreachable => .error (.ofFault .noSuchFile)

def createWriter (o : Options) : Node → Except StreamError Channel
  | file _ | vacant => .ok (.writer {} o)
  | directory => .error (.ofFault .isDirectory)
  | unreachable => .error (.ofFault .noSuchFile)

def ofWriter (c : Channel) : Node :=
  file ((c.sink.map Sink.contents).getD [])

end Node
end OctetStream
