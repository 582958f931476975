import OctetStream.Buffer
import OctetStream.ByteOrder
import OctetStream.Bytes
import OctetStream.Bytes.Cursor
import OctetStream.Bytes.Hex
import OctetStream.Channel
import OctetStream.Channel.Endpoint
import OctetStream.Channel.Transfer
import OctetStream.Codec
import OctetStream.Counters
import OctetStream.Decoder
import OctetStream.Fault
import OctetStream.Json.Token
import OctetStream.Json.Value
import OctetStream.Log
import OctetStream.Medium
import OctetStream.Medium.Read
import OctetStream.Message
import OctetStream.Options
import OctetStream.Primitive
import OctetStream.ReadOp
import OctetStream.StreamError
import OctetStream.WriteOp
import OctetStream.Proofs.Comparison
import OctetStream.Proofs.Channel.Chunking
import OctetStream.Proofs.Buffer.Beside
import OctetStream.Proofs.Buffer.Rewind
import OctetStream.Proofs.Framing
import OctetStream.Proofs.Buffer.Framing
import OctetStream.Proofs.Channel.Framing
import OctetStream.Proofs.Field
import OctetStream.Proofs.RoundTrip
import OctetStream.Proofs.Buffer.Extension
import OctetStream.Proofs.Assembly
import OctetStream.Proofs.Channel.Ledger
import OctetStream.Proofs.Encoding
import OctetStream.Proofs.Frames
import OctetStream.Proofs.Agreement
import OctetStream.Proofs.FailureTally
import OctetStream.Proofs.Slots
import OctetStream.Proofs.Buffer.Account
import OctetStream.Proofs.Buffer.Taken
import OctetStream.Proofs.Canonical
import OctetStream.Proofs.Hex
import OctetStream.Proofs.Writes
import OctetStream.Proofs.Buffer.Indexed
import OctetStream.Proofs.Buffer.Plain
import OctetStream.Proofs.Buffer.CString
import OctetStream.Proofs.Buffer.Elements
import OctetStream.Proofs.Buffer.Terminated
import OctetStream.Proofs.Channel.PayloadLimit
import OctetStream.Proofs.Channel.Replies
import OctetStream.Proofs.Messages
import OctetStream.Proofs.Utf8
import OctetStream.Proofs.Buffer.Text
import OctetStream.Proofs.Failures
import OctetStream.Proofs.ErrorReports
import OctetStream.Proofs.Json.Grammar
import OctetStream.Proofs.Json.Parsing
import OctetStream.Proofs.Json.Strings
import OctetStream.Proofs.Json.Fields
import OctetStream.Proofs.Options.Objects
import OctetStream.Proofs.Options.RoundTrip
import OctetStream.Proofs.Buffer.Locality
import OctetStream.Proofs.Concatenation
import OctetStream.Proofs.HexText
import OctetStream.Proofs.HexWrites
import OctetStream.Proofs.Words
import OctetStream.Proofs.Previews
