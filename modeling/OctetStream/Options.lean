import OctetStream.Json.Value
import OctetStream.StreamError

/-! How a stream is set up. In JSON, options that are left out take their defaults, at the end of an
array as in an object. A byte order is its name in small letters, as a string or, which the derived
readers of an enumeration allow, as the one key of an object under which there is `null`. -/

namespace OctetStream

structure Options where
  order : ByteOrder := .default
  capacityHint : Option Nat := none
  payloadLimit : Nat := Limits.defaultPayload
  deriving DecidableEq, Repr, Inhabited

namespace Options

def validate (o : Options) : Except StreamError Unit :=
  if o.payloadLimit = 0 then .error (.malformedInput "max_payload_len must be non-zero")
  else .ok ()

end Options

/-! ## JSON -/

namespace ByteOrder

def toJson (order : ByteOrder) : String :=
  "\"" ++ order.name ++ "\""

def ofValue? : Json.Value → Option ByteOrder
  | .string units | .object [(units, .null)] => (Json.text? units).bind ofName?
  | _ => none

def ofJson? (text : String) : Option ByteOrder :=
  (Json.Value.parse? text).bind ofValue?

end ByteOrder

namespace Options

def toJson (o : Options) : String :=
  let capacity := match o.capacityHint with
    | some n => toString n
    | none => "null"
  "\x7b\"endian\":" ++ o.order.toJson ++ ",\"capacity_hint\":" ++ capacity
    ++ ",\"max_payload_len\":" ++ toString o.payloadLimit ++ "\x7d"

def ofMembers? (members : List (String × Json.Value)) : Option Options := do
  let o : Options := {}
  let order ← Json.field? "endian" ByteOrder.ofValue? (some o.order) members
  let capacityHint ← Json.field? "capacity_hint" (Json.Value.optional? Json.Value.count?)
    (some o.capacityHint) members
  let payloadLimit ←
    Json.field? "max_payload_len" Json.Value.count? (some o.payloadLimit) members
  return { order, capacityHint, payloadLimit }

def ofItems? (items : List Json.Value) : Option Options := do
  let o : Options := {}
  let order ← Json.item? ByteOrder.ofValue? (some o.order) items
  let capacityHint ←
    Json.item? (Json.Value.optional? Json.Value.count?) (some o.capacityHint) (items.drop 1)
  let payloadLimit ← Json.item? Json.Value.count? (some o.payloadLimit) (items.drop 2)
  if items.length ≤ 3 then return { order, capacityHint, payloadLimit } else none

def ofValue? : Json.Value → Option Options
  | .object members => (Json.textKeys? members).bind ofMembers?
  | .array items => ofItems? items
  | _ => none

def ofJson (text : String) : Except StreamError Options :=
  match (Json.Value.parse? text).bind ofValue? with
  | none => .error (.malformedInput "stream options")
  | some o => o.validate.map fun _ => o

end Options
end OctetStream
