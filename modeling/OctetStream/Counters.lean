import OctetStream.Json.Value

/-! Tallies of the transfers of a stream. A transfer counts when it is complete; one that fails
counts as a failure and adds no octets. In JSON none of the tallies may be left out. -/

namespace OctetStream

structure Counters where
  reads : Nat := 0
  writes : Nat := 0
  bytesRead : Nat := 0
  bytesWritten : Nat := 0
  readFailures : Nat := 0
  writeFailures : Nat := 0
  /-- Source calls that returned octets, but fewer than were still wanted. -/
  shortReads : Nat := 0
  deriving DecidableEq, Repr, Inhabited

namespace Counters

def addRead (n : Nat) (c : Counters) : Counters :=
  { c with reads := c.reads + 1, bytesRead := c.bytesRead + n }

def addWrite (n : Nat) (c : Counters) : Counters :=
  { c with writes := c.writes + 1, bytesWritten := c.bytesWritten + n }

def addReadFailure (c : Counters) : Counters :=
  { c with readFailures := c.readFailures + 1 }

def addWriteFailure (c : Counters) : Counters :=
  { c with writeFailures := c.writeFailures + 1 }

def addShortReads (n : Nat) (c : Counters) : Counters :=
  { c with shortReads := c.shortReads + n }

def failures (c : Counters) : Nat :=
  c.readFailures + c.writeFailures

def merge (c d : Counters) : Counters where
  reads := c.reads + d.reads
  writes := c.writes + d.writes
  bytesRead := c.bytesRead + d.bytesRead
  bytesWritten := c.bytesWritten + d.bytesWritten
  readFailures := c.readFailures + d.readFailures
  writeFailures := c.writeFailures + d.writeFailures
  shortReads := c.shortReads + d.shortReads

instance : Add Counters := ⟨merge⟩

def addReads (reads n : Nat) (c : Counters) : Counters :=
  { c with reads := c.reads + reads, bytesRead := c.bytesRead + n }

def addWrites (writes n : Nat) (c : Counters) : Counters :=
  { c with writes := c.writes + writes, bytesWritten := c.bytesWritten + n }

def withoutShortReads (c : Counters) : Counters :=
  { c with shortReads := 0 }

def withoutReadFailures (c : Counters) : Counters :=
  { c with readFailures := 0 }

def toList (c : Counters) : List Nat :=
  [c.reads, c.writes, c.bytesRead, c.bytesWritten, c.readFailures, c.writeFailures, c.shortReads]

theorem addReads_addReads (j k m n : Nat) (c : Counters) :
    (c.addReads j m).addReads k n = c.addReads (j + k) (m + n) := by
  simp only [addReads, Nat.add_assoc]

theorem addWrites_addWrites (j k m n : Nat) (c : Counters) :
    (c.addWrites j m).addWrites k n = c.addWrites (j + k) (m + n) := by
  simp only [addWrites, Nat.add_assoc]

theorem merge_comm (c d : Counters) : c.merge d = d.merge c := by
  simp only [merge, Nat.add_comm]

theorem merge_assoc (c d e : Counters) : (c.merge d).merge e = c.merge (d.merge e) := by
  simp only [merge, Nat.add_assoc]

theorem failures_merge (c d : Counters) : (c.merge d).failures = c.failures + d.failures := by
  simp only [merge, failures]
  omega

/-! ## JSON -/

def keys : List String :=
  ["reads", "writes", "bytes_read", "bytes_written", "read_failures", "write_failures",
    "short_reads"]

def ofList? : List Nat → Option Counters
  | [reads, writes, bytesRead, bytesWritten, readFailures, writeFailures, shortReads] =>
    some { reads, writes, bytesRead, bytesWritten, readFailures, writeFailures, shortReads }
  | _ => none

def toJson (c : Counters) : String :=
  let member (key : String) (n : Nat) : String := "\"" ++ key ++ "\":" ++ toString n
  "\x7b" ++ ",".intercalate (keys.zipWith member c.toList) ++ "\x7d"

def ofValue? : Json.Value → Option Counters
  | .object members => do
    let members ← Json.textKeys? members
    ofList? (← keys.mapM fun key => Json.field? key Json.Value.count? none members)
  | .array items => do ofList? (← items.mapM Json.Value.count?)
  | _ => none

def ofJson? (text : String) : Option Counters :=
  (Json.Value.parse? text).bind ofValue?

end Counters
end OctetStream
