import OctetStream.Medium

/-! Typed reads over any medium. A read of several parts goes through `atomically`, by which a
medium that can go back makes it one. -/

namespace OctetStream.Medium

variable {σ : Type} [Medium σ]

def readWord (t : Primitive) (order? : Option ByteOrder) : Action σ (Word t) := do
  let order ← orderOr order?
  return Word.get t order (← fetch t.width)

def readOctet : Action σ UInt8 := do
  return (← fetch 1).headD Bytes.nul

def readString (field : LengthField) (order? : Option ByteOrder) : Action σ String :=
  atomically do
    let start ← currentOffset
    let len := (← readWord field.primitive order?).toNat
    permit len
    ofExcept (textAt start (← readBytes len))

def readCStringBytes (width : Nat) : Action σ Bytes := do
  return (← readBytes width).untilNul

def readCString (width : Nat) : Action σ String :=
  atomically do
    let start ← currentOffset
    ofExcept (textAt start (← readCStringBytes width))

/-- Octets up to a NUL, which is consumed. `count` octets, `acc` with the latest first, have been
read; at most `fuel` more can come before a read fails. -/
def collectUntilNul (limit : Option Nat) : Nat → Nat → Bytes → Action σ Bytes
  | 0, _, acc => do
    let _ ← readOctet
    return acc.reverse
  | fuel + 1, count, acc => do
    let c ← readOctet
    if c = Bytes.nul then return acc.reverse
    match limit with
    | some max =>
      if max ≤ count then throw (.lengthLimit (count + 1) max)
      else collectUntilNul limit fuel (count + 1) (c :: acc)
    | none => collectUntilNul limit fuel (count + 1) (c :: acc)

def readUntilNul : Action σ Bytes := do
  collectUntilNul (← currentLimit) (← currentSupply) 0 []

def readTerminatedBytes : Action σ Bytes :=
  atomically readUntilNul

def readTerminated : Action σ String :=
  atomically do
    let start ← currentOffset
    ofExcept (textAt start (← readUntilNul))

/-- A run whose length the program fixes, through the loop `values` over its octets; the payload
limit does not apply. -/
def readFixed {t : Primitive} (n : Nat) (order? : Option ByteOrder)
    (values : ByteOrder → Bytes → List (Word t)) : Action σ (List (Word t)) := do
  let order ← orderOr order?
  let total ← ofExcept (runLength t n)
  return values order (← readBytes total)

def readArray (t : Primitive) (n : Nat) (order? : Option ByteOrder) : Action σ (List (Word t)) :=
  readFixed n order? fun order => Word.getArray t order n

def readRun (t : Primitive) (n : Nat) (order? : Option ByteOrder) : Action σ (List (Word t)) := do
  let order ← orderOr order?
  let total ← ofExcept (runLength t n)
  permit total
  return Word.getAll t order (← readBytes total)

section

variable {t : Primitive} {n : Nat} {order? : Option ByteOrder} {s : σ}

theorem readFixed_of_ok {values : ByteOrder → Bytes → List (Word t)} {total : Nat}
    (h : runLength t n = .ok total) :
    readFixed n order? values s =
      (readBytes total >>= fun b => pure (values (order?.getD (order s)) b)) s := by
  unfold readFixed
  rw [h]
  rfl

theorem readFixed_of_error {values : ByteOrder → Bytes → List (Word t)} {e : StreamError}
    (h : runLength t n = .error e) : readFixed n order? values s = .error e s := by
  unfold readFixed
  rw [h]
  rfl

theorem readRun_of_ok {total : Nat} (h : runLength t n = .ok total) :
    readRun t n order? s = (permit total >>= fun _ => readBytes total >>= fun b =>
      pure (Word.getAll t (order?.getD (order s)) b)) s := by
  unfold readRun
  rw [h]
  rfl

theorem readRun_of_error {e : StreamError} (h : runLength t n = .error e) :
    readRun t n order? s = .error e s := by
  unfold readRun
  rw [h]
  rfl

end

structure Filled (α : Type) where
  failure : Option StreamError
  slots : List α
  deriving DecidableEq, Repr

/-- What came of a failed transfer is left in the front of the slots. -/
def readInto (dest : Bytes) (s : σ) : Filled UInt8 × σ :=
  let (receipt, s) := receive dest.length s
  (⟨receipt.failure, overwrite receipt.got dest⟩, s)

def fillRun {t : Primitive} (dest : List (Word t)) (order? : Option ByteOrder) (s : σ) :
    Filled (Word t) × σ :=
  match readFixed dest.length order? (fun order => Word.fillAll order dest) s with
  | .ok slots s => (⟨none, slots⟩, s)
  | .error e s => (⟨some e, dest⟩, s)

def slotsOf {α : Type} (read : σ → Filled α × σ) : Action σ (List α) := fun s =>
  match read s with
  | (⟨none, slots⟩, s) => .ok slots s
  | (⟨some e, _⟩, s) => .error e s

theorem slotsOf_readInto (dest : Bytes) :
    (slotsOf (readInto dest) : Action σ Bytes) =
      fetch dest.length >>= fun got => pure (overwrite got dest) := by
  funext s
  show slotsOf (readInto dest) s = EStateM.bind (fetch dest.length) _ s
  unfold slotsOf readInto EStateM.bind fetch demand
  obtain ⟨⟨got, failure⟩, after⟩ := receive dest.length s
  cases failure <;> rfl

theorem slotsOf_fillRun {t : Primitive} (dest : List (Word t)) (order? : Option ByteOrder) :
    (slotsOf (fillRun dest order?) : Action σ (List (Word t))) =
      readFixed dest.length order? fun order => Word.fillAll order dest := by
  funext s
  unfold slotsOf fillRun
  cases readFixed dest.length order? (fun order => Word.fillAll order dest) s <;> rfl

theorem slots_of_failed_fillRun {t : Primitive} (dest : List (Word t)) (order? : Option ByteOrder)
    (s : σ) (h : (fillRun dest order? s).1.failure ≠ none) :
    (fillRun dest order? s).1.slots = dest := by
  unfold fillRun at h ⊢
  cases hread : readFixed dest.length order? (fun order => Word.fillAll order dest) s with
  | ok slots after =>
    rw [hread] at h
    exact absurd rfl h
  | error e after => rfl

end OctetStream.Medium
