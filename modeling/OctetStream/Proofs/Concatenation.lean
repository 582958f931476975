import OctetStream.Message
import OctetStream.Proofs.Buffer.Account
import OctetStream.Proofs.Encoding
import OctetStream.Proofs.Writes

/-! Writes to a buffer, one series behind another. The payloads of a series are settled by its
fields and the byte order, so a buffer takes the same octets and counts the same transfers whatever
it holds already. -/

namespace OctetStream

namespace Counters

theorem addWrites_eq_merge (writes n : Nat) (c : Counters) :
    c.addWrites writes n = c.merge (({} : Counters).addWrites writes n) := by
  simp only [addWrites, merge, Nat.zero_add, Nat.add_zero]

end Counters

namespace WriteOp

def accepted (order : ByteOrder) (ops : List WriteOp) : List Bytes :=
  ops.flatMap fun op => (op.payload order).toOption.toList

def replies (order : ByteOrder) (ops : List WriteOp) :
    List ((_ : WriteOp) × Except StreamError Unit) :=
  ops.map fun op => ⟨op, (op.payload order).map fun _ => ()⟩

theorem encodeAll_eq_ok {order : ByteOrder} {ops : List WriteOp} {octets : Bytes}
    (h : encodeAll order ops = .ok octets) :
    firstError order ops = none ∧ (payloads order ops).flatten = octets := by
  unfold encodeAll at h
  split at h
  · rename_i hnone
    exact ⟨hnone, Except.ok.inj h⟩
  · cases h

theorem encodeAll_eq_error {order : ByteOrder} {ops : List WriteOp} {e : StreamError}
    (h : encodeAll order ops = .error e) : firstError order ops = some e := by
  unfold encodeAll at h
  split at h
  · cases h
  · rename_i f hfirst
    cases h
    exact hfirst

theorem attemptAll_cons {σ : Type} [Medium σ] (op : WriteOp) (ops : List WriteOp) (s : σ) :
    attemptAll (op :: ops) s =
      (⟨op, (op.perform.settle s).1⟩ :: (attemptAll ops (op.perform.settle s).2).1,
        (attemptAll ops (op.perform.settle s).2).2) := rfl

end WriteOp

namespace Buffer

open WriteOp

variable {order : ByteOrder} {b : Buffer}

def put (parts : List Bytes) (b : Buffer) : Buffer :=
  { b with
    cursor := b.cursor.append parts.flatten
    counters := b.counters.addWrites parts.length parts.flatten.length }

theorem put_nil (b : Buffer) : b.put [] = b := by
  simp only [put, Cursor.append, List.flatten_nil, List.append_nil]
  rfl

theorem put_singleton (data : Bytes) (b : Buffer) :
    b.put [data] = { b with
      cursor := b.cursor.append data
      counters := b.counters.addWrite data.length } := by
  simp only [put, List.flatten_singleton]
  rfl

theorem put_put (xs ys : List Bytes) (b : Buffer) : (b.put xs).put ys = b.put (xs ++ ys) := by
  simp only [put, Cursor.append, Counters.addWrites_addWrites, List.flatten_append,
    List.length_append, List.append_assoc]

theorem data_put (parts : List Bytes) (b : Buffer) : (b.put parts).data = b.data ++ parts.flatten :=
  Cursor.data_append _ b.cursor

theorem settle_write (op : WriteOp) (b : Buffer) :
    op.perform.settle b = ((op.payload b.order).map fun _ => (),
      b.put (op.payload b.order).toOption.toList) := by
  cases hpayload : op.payload b.order with
  | error e =>
    rw [Action.settle_of_error (perform_of_error (s := b) hpayload)]
    exact congrArg (Prod.mk _) (put_nil b).symm
  | ok data =>
    rw [Action.settle_of_ok (perform_of_ok (s := b) hpayload)]
    exact congrArg (Prod.mk _) (put_singleton data b).symm

theorem attemptAll_eq (ops : List WriteOp) (b : Buffer) :
    attemptAll ops b = (replies b.order ops, b.put (accepted b.order ops)) := by
  induction ops generalizing b with
  | nil => exact congrArg (Prod.mk _) (put_nil b).symm
  | cons op ops ih =>
    have hothers := ih (op.perform.settle b).2
    rw [attemptAll_cons, hothers, settle_write, put_put]
    rfl

theorem performAll_eq (ops : List WriteOp) (b : Buffer) :
    performAll ops b =
      match firstError b.order ops with
      | none => .ok () (b.put (payloads b.order ops))
      | some e => .error e (b.put (payloads b.order ops)) := by
  induction ops generalizing b with
  | nil => exact congrArg (EStateM.Result.ok ()) (put_nil b).symm
  | cons op ops ih =>
    cases hpayload : op.payload b.order with
    | error e =>
      simp only [payloads, firstError, hpayload, put_nil]
      exact Action.bind_of_error (perform_of_error hpayload)
    | ok data =>
      have hfirst : op.perform b = .ok () (b.put [data]) := by
        rw [put_singleton]
        exact perform_of_ok hpayload
      simp only [payloads, firstError, hpayload]
      refine (Action.bind_of_ok hfirst).trans ((ih (b.put [data])).trans ?_)
      rw [put_put]
      rfl

section Encoding

variable {α : Type} [Codec α] {v : α}

theorem encodeStream_of_ok {octets : Bytes} (h : (Codec.encode v).result = .ok octets)
    (hb : b.order = .little) :
    ∃ parts : List Bytes, parts.flatten = octets ∧
      Codec.encodeStream v b = .ok () (b.put parts) := by
  have hrun := performAll_eq (Codec.encoder v) b
  rw [Codec.result_encode] at h
  obtain ⟨hnone, hparts⟩ := encodeAll_eq_ok h
  rw [show b.order = .default from hb, hnone] at hrun
  exact ⟨_, hparts, hrun⟩

theorem encodeStream_of_error {e : StreamError} (h : (Codec.encode v).result = .error e)
    (hb : b.order = .little) :
    ∃ parts : List Bytes, Codec.encodeStream v b = .error e (b.put parts) := by
  have hrun := performAll_eq (Codec.encoder v) b
  rw [Codec.result_encode] at h
  rw [show b.order = .default from hb, encodeAll_eq_error h] at hrun
  exact ⟨_, hrun⟩

end Encoding

structure Fresh (order : ByteOrder) (b : Buffer) : Prop where
  order_eq : b.order = order
  cursor_eq : b.cursor = .start []
  counters_eq : b.counters = {}

namespace Fresh

theorem of_built (h : Built b []) : Fresh b.order b := by
  generalize hbase : ([] : Bytes) = base at h
  cases h with
  | ofBytes =>
    subst hbase
    exact ⟨rfl, rfl, rfl⟩
  | empty => exact ⟨rfl, rfl, rfl⟩
  | withOptions hmade =>
    rw [withOptions_eq_ok hmade]
    exact ⟨rfl, rfl, rfl⟩

theorem reset (b : Buffer) : Fresh b.order b.reset :=
  ⟨rfl, rfl, rfl⟩

variable {a : Buffer}

theorem data_put (h : Fresh order a) (parts : List Bytes) : (a.put parts).data = parts.flatten := by
  rw [Buffer.data_put, Buffer.data, h.cursor_eq]
  rfl

theorem counters_put (h : Fresh order a) (parts : List Bytes) :
    (a.put parts).counters = ({} : Counters).addWrites parts.length parts.flatten.length := by
  rw [put, h.counters_eq]

theorem attemptAll_eq (h : Fresh order a) (ops : List WriteOp) :
    (attemptAll ops a).1 = replies order ops ∧
      (attemptAll ops a).2.data = (accepted order ops).flatten ∧
      (attemptAll ops a).2.counters = ({} : Counters).addWrites
        (accepted order ops).length (accepted order ops).flatten.length := by
  obtain rfl := h.order_eq
  rw [Buffer.attemptAll_eq]
  exact ⟨rfl, h.data_put _, h.counters_put _⟩

theorem attemptAll_of_order (h : Fresh order a) (hb : b.order = order) (ops : List WriteOp) :
    attemptAll ops b = ((attemptAll ops a).1, { b with
      cursor := b.cursor.append (attemptAll ops a).2.data
      counters := b.counters.merge (attemptAll ops a).2.counters }) := by
  obtain ⟨hreplies, hdata, hcounters⟩ := h.attemptAll_eq ops
  have hrun := Buffer.attemptAll_eq ops b
  rw [hb] at hrun
  rw [hrun, hreplies, hdata, hcounters, ← Counters.addWrites_eq_merge]
  rfl

end Fresh
end Buffer

open WriteOp Buffer

/-- A series of writes gets the same replies and adds the same octets and tallies whatever the
buffer holds already, so behind another series it adds what it adds on its own; what a codec encodes
goes behind what a little-endian buffer holds. -/
theorem writes_concatenate {order : ByteOrder} {a b c : Buffer} (ha : a.Fresh order)
    (hb : b.Fresh order) (hc : c.Fresh order) (xs ys : List WriteOp) :
    let front := attemptAll xs a
    let back := attemptAll ys b
    let first := attemptAll xs c
    let both := attemptAll ys first.2
    first.1 = front.1 ∧ both.1 = back.1 ∧
    both.2.data = front.2.data ++ back.2.data ∧
    both.2.counters = front.2.counters.merge back.2.counters ∧
    both.2.counters = front.2.counters + back.2.counters ∧
    both.2.counters = back.2.counters + front.2.counters ∧
    (∀ s : Buffer, s.order = order → attemptAll ys s = (back.1, { s with
      cursor := s.cursor.append back.2.data
      counters := s.counters.merge back.2.counters })) ∧
    ∀ {α : Type} [Codec α] (v : α) (s : Buffer), s.order = .little →
      let run := (Codec.encodeStream v).settle s
      (∀ octets, (Codec.encode v).result = .ok octets → run.1 = .ok () ∧
        run.2.data = s.data ++ octets ∧ run.2.unread = s.unread ++ octets ∧
        run.2.position = s.position) ∧
      ∀ e, (Codec.encode v).result = .error e → run.1 = .error e ∧
        s.data <+: run.2.data ∧ run.2.position = s.position := by
  intro front back first both
  have hfirst := ha.attemptAll_of_order hc.order_eq xs
  have horder : first.2.order = order := (congrArg (·.2.order) hfirst).trans hc.order_eq
  have hboth : both = (back.1, { first.2 with
      cursor := first.2.cursor.append back.2.data
      counters := first.2.counters.merge back.2.counters }) := hb.attemptAll_of_order horder ys
  -- The first series finds `c` as fresh as `a`.
  obtain ⟨-, hdata, hcounters⟩ := hc.attemptAll_eq xs
  obtain ⟨-, hdata', hcounters'⟩ := ha.attemptAll_eq xs
  have hmerge : both.2.counters = front.2.counters.merge back.2.counters :=
    calc both.2.counters
        = first.2.counters.merge back.2.counters := congrArg (·.2.counters) hboth
      _ = front.2.counters.merge back.2.counters :=
        congrArg (Counters.merge · _) (hcounters.trans hcounters'.symm)
  refine ⟨congrArg (·.1) hfirst, congrArg (·.1) hboth, ?_, hmerge, hmerge, ?_,
    fun s hs => hb.attemptAll_of_order hs ys, fun v s hs => ⟨fun octets hencode => ?_,
    fun e hencode => ?_⟩⟩
  · calc both.2.data
        = (first.2.cursor.append back.2.data).data := congrArg (·.2.data) hboth
      _ = first.2.data ++ back.2.data := Cursor.data_append ..
      _ = front.2.data ++ back.2.data := congrArg (· ++ _) (hdata.trans hdata'.symm)
  · exact hmerge.trans (Counters.merge_comm ..)
  · obtain ⟨parts, rfl, hrun⟩ := encodeStream_of_ok hencode hs
    rw [Action.settle_of_ok hrun]
    exact ⟨rfl, data_put parts s, rfl, rfl⟩
  · obtain ⟨parts, hrun⟩ := encodeStream_of_error hencode hs
    rw [Action.settle_of_error hrun]
    exact ⟨rfl, ⟨_, (data_put parts s).symm⟩, rfl⟩

theorem field_behind_bad_hex_concatenates :
    let c := (Buffer.ofBytes [7, 8] .big).reset
    let xs : List WriteOp := [.bytes [1], .hex "0g"]
    let ys : List WriteOp := [.string .short none "hé"]
    let both := attemptAll ys (attemptAll xs c).2
    let run := (Codec.encodeStream ({ amazing := [5] } : Wow)).settle (Buffer.ofBytes [9] .little)
    both.2.data = [1] ++ [0, 3, 104, 195, 169] ∧
      both.2.counters = ({} : Counters).addWrites 1 1 + ({} : Counters).addWrites 1 5 ∧
      run.2.data = [9] ++ [1, 0, 5] ∧ run.2.position = 0 := by
  intro c xs ys both run
  have ha : Fresh .big (Buffer.empty .big 16) := .of_built (.empty .big 16)
  have hb : Fresh .big (Buffer.ofBytes [] .big) := .of_built (.ofBytes [] .big)
  obtain ⟨-, -, hdata, -, hcounters, -, -, hcodec⟩ :=
    writes_concatenate ha hb (.reset (Buffer.ofBytes [7, 8] .big)) xs ys
  obtain ⟨-, hrun, -, hplace⟩ :=
    (hcodec ({ amazing := [5] } : Wow) (Buffer.ofBytes [9] .little) rfl).1 [1, 0, 5] rfl
  have hfront : (attemptAll xs (Buffer.empty .big 16)).2.data = [1] ∧
      (attemptAll xs (Buffer.empty .big 16)).2.counters = ({} : Counters).addWrites 1 1 := by
    decide +kernel
  have hback : (attemptAll ys (Buffer.ofBytes [] .big)).2.data = [0, 3, 104, 195, 169] ∧
      (attemptAll ys (Buffer.ofBytes [] .big)).2.counters = ({} : Counters).addWrites 1 5 := by
    decide +kernel
  rw [hfront.1, hback.1] at hdata
  rw [hfront.2, hback.2] at hcounters
  exact ⟨hdata, hcounters, hrun, hplace⟩

end OctetStream
