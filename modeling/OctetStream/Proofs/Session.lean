import OctetStream.Buffer
import OctetStream.Channel
import OctetStream.ReadOp
import OctetStream.WriteOp

/-! Sessions: requests to a stream, one after the other, and the replies to them. -/

namespace OctetStream

def Action.settle {σ α : Type} (x : Action σ α) (s : σ) : Except StreamError α × σ :=
  match x s with
  | .ok a s => (.ok a, s)
  | .error e s => (.error e, s)

theorem Action.settle_of_ok {σ α : Type} {x : Action σ α} {a : α} {s t : σ} (h : x s = .ok a t) :
    x.settle s = (.ok a, t) := by
  rw [settle, h]

theorem Action.settle_of_error {σ α : Type} {x : Action σ α} {e : StreamError} {s t : σ}
    (h : x s = .error e t) : x.settle s = (.error e, t) := by
  rw [settle, h]

def errorOf {α : Type} : Except StreamError α → Option StreamError
  | .ok _ => none
  | .error e => some e

theorem eq_ok_of_errorOf {α : Type} {r : Except StreamError α} (h : errorOf r = none) :
    ∃ a, r = .ok a := by
  cases r with
  | ok a => exact ⟨a, rfl⟩
  | error e => cases h

theorem eq_error_of_errorOf {α : Type} {r : Except StreamError α} {e : StreamError}
    (h : errorOf r = some e) : r = .error e := by
  cases r with
  | ok a => cases h
  | error f => exact congrArg Except.error (Option.some.inj h)

theorem Action.eq_error_of_settle {σ α : Type} {x : Action σ α} {s : σ} {e : StreamError}
    (h : errorOf (x.settle s).1 = some e) : x s = .error e (x.settle s).2 := by
  cases hx : x s with
  | ok a t =>
    rw [settle_of_ok hx] at h
    cases h
  | error f t =>
    rw [settle_of_error hx] at h ⊢
    cases h
    rfl

/-- What can be asked of every stream. The reply to a read into slots of the caller says what they
hold afterwards, also where the read failed. -/
inductive Request
  | read (op : ReadOp)
  | readInto (dest : Bytes)
  | fillRun (t : Primitive) (dest : List (Word t)) (order? : Option ByteOrder)
  | write (op : WriteOp)
  deriving DecidableEq, Repr

namespace Request

abbrev Reply : Request → Type
  | read op => Except StreamError op.Value
  | readInto _ => Medium.Filled UInt8
  | fillRun t _ _ => Medium.Filled (Word t)
  | write _ => Except StreamError Unit

def perform {σ : Type} [Medium σ] : (request : Request) → σ → request.Reply × σ
  | read op, s => Action.settle op.perform s
  | readInto dest, s => Medium.readInto dest s
  | fillRun _ dest order?, s => Medium.fillRun dest order? s
  | write op, s => Action.settle op.perform s

end Request

def session {ι σ : Type} {Reply : ι → Type} (perform : (i : ι) → σ → Reply i × σ) :
    List ι → σ → List (Sigma Reply) × σ
  | [], s => ([], s)
  | i :: is, s =>
    let (reply, s) := perform i s
    let (replies, s) := session perform is s
    (⟨i, reply⟩ :: replies, s)

theorem session_congr {ι σ τ : Type} {Reply : ι → Type} {R : σ → τ → Prop}
    {f : (i : ι) → σ → Reply i × σ} {g : (i : ι) → τ → Reply i × τ}
    (h : ∀ i s t, R s t → (f i s).1 = (g i t).1 ∧ R (f i s).2 (g i t).2)
    (is : List ι) {s : σ} {t : τ} (hst : R s t) :
    (session f is s).1 = (session g is t).1 ∧ R (session f is s).2 (session g is t).2 := by
  induction is generalizing s t with
  | nil => exact ⟨rfl, hst⟩
  | cons i is ih =>
    obtain ⟨hreply, hnext⟩ := h i s t hst
    obtain ⟨hreplies, hlast⟩ := ih hnext
    refine ⟨?_, hlast⟩
    simp only [session, hreply, hreplies]

namespace Request

def failure : (request : Request) → request.Reply → Option StreamError
  | read _, reply => errorOf reply
  | readInto _, reply => reply.failure
  | fillRun _ _ _, reply => reply.failure
  | write _, reply => errorOf reply

def readOp? : Request → Option ReadOp
  | read op => some op
  | readInto dest => some (.into dest)
  | fillRun t dest order? => some (.fill t dest order?)
  | write _ => none

theorem eq_write_of_readOp {request : Request} (h : request.readOp? = none) :
    ∃ op, request = .write op := by
  cases request with
  | write op => exact ⟨op, rfl⟩
  | _ => cases h

theorem settle_slotsOf {σ α : Type} (read : σ → Medium.Filled α × σ) (s : σ) :
    ((Medium.slotsOf read).settle s).2 = (read s).2 ∧
      errorOf ((Medium.slotsOf read).settle s).1 = (read s).1.failure := by
  unfold Action.settle Medium.slotsOf
  rcases read s with ⟨⟨failure, slots⟩, t⟩
  cases failure <;> exact ⟨rfl, rfl⟩

theorem settle_readOp {σ : Type} [Medium σ] {request : Request} {op : ReadOp}
    (h : request.readOp? = some op) (s : σ) :
    (op.perform.settle s).2 = (request.perform s).2 ∧
      errorOf (op.perform.settle s).1 = request.failure (request.perform s).1 := by
  cases request with
  | read op' =>
    cases h
    exact ⟨rfl, rfl⟩
  | readInto dest =>
    cases h
    exact settle_slotsOf (Medium.readInto dest) s
  | fillRun t dest order? =>
    cases h
    exact settle_slotsOf (Medium.fillRun dest order?) s
  | write op' => cases h

theorem perform_eq_error {σ : Type} [Medium σ] {request : Request} {op : ReadOp}
    (h : request.readOp? = some op) {s : σ} {e : StreamError}
    (he : request.failure (request.perform s).1 = some e) :
    op.perform s = .error e (request.perform s).2 := by
  obtain ⟨hstate, hfailure⟩ := settle_readOp h s
  rw [← hstate]
  exact Action.eq_error_of_settle (hfailure.trans he)

end Request

inductive Buffer.Request
  | stream (request : OctetStream.Request)
  | consume (n : Nat)
  | peek (n : Nat)
  | reset
  deriving DecidableEq, Repr

namespace Buffer.Request

abbrev Reply : Request → Type
  | stream request => request.Reply
  | consume _ | peek _ => Except StreamError Bytes
  | reset => Unit

def perform : (request : Request) → Buffer → request.Reply × Buffer
  | stream request, b => request.perform b
  | consume n, b => Action.settle (Buffer.consume n) b
  | peek n, b => (b.peek n, b)
  | reset, b => ((), b.reset)

def failure : (request : Request) → request.Reply → Option StreamError
  | stream request, reply => request.failure reply
  | consume _, reply => errorOf reply
  | peek _, reply => errorOf reply
  | reset, _ => none

end Buffer.Request

inductive Channel.Request
  | stream (request : OctetStream.Request)
  | flush
  deriving DecidableEq, Repr

namespace Channel.Request

abbrev Reply : Request → Type
  | stream request => request.Reply
  | flush => Except StreamError Unit

def perform : (request : Request) → Channel → request.Reply × Channel
  | stream request, c => request.perform c
  | flush, c => Action.settle Channel.flush c

def failure : (request : Request) → request.Reply → Option StreamError
  | stream request, reply => request.failure reply
  | flush, reply => errorOf reply

end Channel.Request
end OctetStream
