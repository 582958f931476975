import OctetStream.Json.Token
import OctetStream.Primitive

/-! JSON documents. Numbers keep their text and strings their units, so that a member which nobody
asks for can hold any of them; the members of an object keep their order and may repeat a key.

The second part reads records as the JSON library and the readers that it derives for a record are
documented to do. Nothing but blanks may stand around the document, and values may nest to any depth
where they are passed over. A record is an object that has its fields in any order or an array that
has them in theirs. In an object every key must be text; members under other keys than those of the
fields are passed over, a field that stands there twice is refused, and one that is left out takes
its default or, without one, is refused. A count is a number of digits alone that fits 64 bits, and
an optional one may be `null`. -/

namespace OctetStream.Json

inductive Value
  | null
  | bool (value : Bool)
  | number (text : List Char)
  | string (units : List StringUnit)
  | array (items : List Value)
  | object (members : List (List StringUnit × Value))

inductive Frame
  | array (items : List Value)
  | object (members : List (List StringUnit × Value)) (key : List StringUnit)

/-- What may come next; the open containers, innermost first, stand in `outer`. -/
inductive Parse
  | value (outer : List Frame)
  | firstItem (outer : List Frame)
  | afterItem (items : List Value) (outer : List Frame)
  | firstKey (outer : List Frame)
  | nextKey (members : List (List StringUnit × Value)) (outer : List Frame)
  | colon (members : List (List StringUnit × Value)) (key : List StringUnit) (outer : List Frame)
  | afterMember (members : List (List StringUnit × Value)) (outer : List Frame)
  | done (document : Value)

namespace Parse

def complete (v : Value) : List Frame → Parse
  | [] => done v
  | .array items :: outer => afterItem (v :: items) outer
  | .object members key :: outer => afterMember ((key, v) :: members) outer

def beginValue (outer : List Frame) : Token → Option Parse
  | .null => some (complete .null outer)
  | .bool b => some (complete (.bool b) outer)
  | .number text => some (complete (.number text) outer)
  | .string units => some (complete (.string units) outer)
  | .openArray => some (firstItem outer)
  | .openObject => some (firstKey outer)
  | _ => none

def step : Parse → Token → Option Parse
  | value outer, t => beginValue outer t
  | firstItem outer, .closeArray => some (complete (.array []) outer)
  | firstItem outer, t => beginValue (.array [] :: outer) t
  | afterItem items outer, .comma => some (value (.array items :: outer))
  | afterItem items outer, .closeArray => some (complete (.array items.reverse) outer)
  | firstKey outer, .closeObject => some (complete (.object []) outer)
  | firstKey outer, .string key => some (colon [] key outer)
  | nextKey members outer, .string key => some (colon members key outer)
  | colon members key outer, .colon => some (value (.object members key :: outer))
  | afterMember members outer, .comma => some (nextKey members outer)
  | afterMember members outer, .closeObject => some (complete (.object members.reverse) outer)
  | _, _ => none

end Parse

namespace Value

def ofTokens? (tokens : List Token) : Option Value :=
  match tokens.foldlM Parse.step (.value []) with
  | some (.done v) => some v
  | _ => none

def parse? (text : String) : Option Value :=
  match tokens? text.toList with
  | some tokens => ofTokens? tokens
  | none => none

end Value

/-! ## Records -/

def Value.count? : Value → Option Nat
  | .number text =>
    if text.all Char.isDigit then
      let n := text.foldl (fun n c => 10 * n + (c.toNat - '0'.toNat)) 0
      if n ≤ Limits.maxCount then some n else none
    else none
  | _ => none

def Value.optional? {α : Type} (read : Value → Option α) : Value → Option (Option α)
  | .null => some none
  | v => (read v).map some

def textKeys? (members : List (List StringUnit × Value)) : Option (List (String × Value)) :=
  members.mapM fun (key, v) => (text? key).map (·, v)

def valuesOf (key : String) (members : List (String × Value)) : List Value :=
  (members.filter (·.1 == key)).map (·.2)

/-- The field that stands under `key`, at most once; `absent` where it does not stand. -/
def field? {α : Type} (key : String) (read : Value → Option α) (absent : Option α)
    (members : List (String × Value)) : Option α :=
  match valuesOf key members with
  | [] => absent
  | [v] => read v
  | _ => none

def item? {α : Type} (read : Value → Option α) (absent : Option α) : List Value → Option α
  | [] => absent
  | v :: _ => read v

end OctetStream.Json
