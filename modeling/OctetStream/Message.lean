import OctetStream.Codec

/-! Records with codecs of their own: octets behind a two-octet length, a run of fixed length before
a run whose length a field of its own gives, and a record with a field of nearly every kind. -/

namespace OctetStream

structure Wow where
  amazing : Bytes
  deriving DecidableEq, Repr, Inhabited

/-- Of a longer string the length field holds only the low 16 bits. -/
instance : Codec Wow where
  encoder w := [.word .u16 none (.ofNat _ w.amazing.length), .bytes w.amazing]
  decoder := do
    let len ← .ofRead (.word .u16 none)
    let amazing ← .ofRead (.bytes len.toNat)
    return { amazing }

structure Grid where
  corners : Vector (Word .u16) 4
  count : Word .u8
  weights : List (Word .f32)
  deriving DecidableEq, Repr

instance : Codec Grid where
  encoder g :=
    [.run .u16 none g.corners.toList, .word .u8 none g.count, .run .f32 none g.weights]
  decoder := do
    let corners ← .ofRead (.array .u16 4 none)
    let count ← .ofRead (.word .u8 none)
    let weights ← .ofRead (.run .f32 count.toNat none)
    return { corners := .ofFn fun i => corners.getD i 0, count, weights }

structure Player where
  hp : Word .u8
  sp : Word .i16
  id : Word .u32
  score : Word .i64
  speed : Word .f32
  heading : Word .f64
  name : String
  tag : String
  motto : String
  inventory : Wow
  crc : Word .u32
  deriving DecidableEq, Repr

namespace Player

def tagWidth : Nat := 8

instance : Codec Player where
  encoder p :=
    [.word .u8 none p.hp,
      .word .i16 none p.sp,
      .word .u32 (some .big) p.id,
      .word .i64 none p.score,
      .word .f32 none p.speed,
      .word .f64 none p.heading,
      .string .short none p.name,
      .cstring (utf8 p.tag) tagWidth,
      .terminated (utf8 p.motto)]
    ++ Codec.encoder p.inventory
    ++ [.word .u32 none p.crc]
  decoder := do
    let hp ← .ofRead (.word .u8 none)
    let sp ← .ofRead (.word .i16 none)
    let id ← .ofRead (.word .u32 (some .big))
    let score ← .ofRead (.word .i64 none)
    let speed ← .ofRead (.word .f32 none)
    let heading ← .ofRead (.word .f64 none)
    let name ← .ofRead (.string .short none)
    let tag ← .ofRead (.cstring tagWidth)
    let motto ← .ofRead .terminated
    let inventory ← Codec.decoder
    let crc ← .ofRead (.word .u32 none)
    return { hp, sp, id, score, speed, heading, name, tag, motto, inventory, crc }

end Player

end OctetStream
