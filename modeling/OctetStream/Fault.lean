/-! Faults that an endpoint reports: a kind, which decides how a transfer goes on, and the text
that is shown for it. -/

namespace OctetStream

inductive FaultKind
  | notFound
  | permissionDenied
  | connectionReset
  | brokenPipe
  | alreadyExists
  | wouldBlock
  | isDirectory
  | invalidInput
  | invalidData
  | timedOut
  | writeZero
  | interrupted
  | unsupported
  | unexpectedEnd
  | outOfMemory
  | other
  deriving DecidableEq, Repr

def FaultKind.description : FaultKind → String
  | .notFound => "entity not found"
  | .permissionDenied => "permission denied"
  | .connectionReset => "connection reset"
  | .brokenPipe => "broken pipe"
  | .alreadyExists => "entity already exists"
  | .wouldBlock => "operation would block"
  | .isDirectory => "is a directory"
  | .invalidInput => "invalid input parameter"
  | .invalidData => "invalid data"
  | .timedOut => "timed out"
  | .writeZero => "write zero"
  | .interrupted => "operation interrupted"
  | .unsupported => "unsupported"
  | .unexpectedEnd => "unexpected end of file"
  | .outOfMemory => "out of memory"
  | .other => "other error"

structure Fault where
  kind : FaultKind
  text : String
  deriving DecidableEq, Repr

namespace Fault

def ofKind (kind : FaultKind) : Fault :=
  ⟨kind, kind.description⟩

def interrupt : Fault :=
  ofKind .interrupted

def isInterrupt (f : Fault) : Bool :=
  f.kind == .interrupted

def noSuchFile : Fault :=
  ⟨.notFound, "No such file or directory (os error 2)"⟩

def isDirectory : Fault :=
  ⟨.isDirectory, "Is a directory (os error 21)"⟩

end Fault
end OctetStream
