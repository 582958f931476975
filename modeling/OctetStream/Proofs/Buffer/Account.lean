import OctetStream.Proofs.Buffer.Rewind

/-! What a buffer holds, by an account of the requests made of it. Its octets are those that it
began with, or none since a reset, and the payloads of the writes that succeeded since; its place is
the number of octets that reads have counted. -/

namespace OctetStream

def Counters.withoutReads (c : Counters) : Counters :=
  { c with reads := 0, bytesRead := 0, readFailures := 0 }

namespace Buffer

open Medium

theorem Request.isRead_or (request : Request) :
    request.IsRead ∨ (∃ op, request = .stream (.write op)) ∨ (∃ n, request = .peek n) ∨
      request = .reset := by
  cases request with
  | stream request =>
    cases request with
    | write op => exact Or.inr (Or.inl ⟨op, rfl⟩)
    | _ => exact Or.inl trivial
  | consume n => exact Or.inl trivial
  | peek n => exact Or.inr (Or.inr (Or.inl ⟨n, rfl⟩))
  | reset => exact Or.inr (Or.inr (Or.inr rfl))

/-- Reads have led from `start` to `b`, whether they failed or not. -/
structure Walked (start b : Buffer) : Prop where
  data_eq : b.data = start.data
  order_eq : b.order = start.order
  position_le : start.position ≤ b.position
  bytesRead_eq : b.counters.bytesRead + start.position = start.counters.bytesRead + b.position
  counters_eq : b.counters.withoutReads = start.counters.withoutReads

namespace Walked

variable {start b after : Buffer}

theorem refl (b : Buffer) : Walked b b :=
  ⟨rfl, rfl, Nat.le_refl _, rfl, rfl⟩

theorem advance (h : Walked start b) {n : Nat} (hn : n ≤ b.remaining) :
    Walked start (b.advance n) where
  data_eq := (data_advance n b).trans h.data_eq
  order_eq := h.order_eq
  position_le := by
    rw [position_advance hn]
    exact Nat.le_add_right_of_le h.position_le
  bytesRead_eq := by
    have hbytes : (b.advance n).counters.bytesRead = b.counters.bytesRead + n := rfl
    rw [position_advance hn, hbytes, Nat.add_right_comm, h.bytesRead_eq, Nat.add_assoc]
  counters_eq := h.counters_eq

theorem receive (h : Walked start b) (n : Nat) : Walked start (b.receive n).2 := by
  rcases Nat.lt_or_ge b.remaining n with hlt | hle
  · rw [receive_of_lt hlt]
    exact ⟨h.data_eq, h.order_eq, h.position_le, h.bytesRead_eq, h.counters_eq⟩
  · rw [receive_of_le hle]
    exact h.advance hle

theorem rewound (h : Walked start b) (hafter : Walked start after) (e : StreamError) :
    Walked start (b.rewound e after) := by
  have hcursor := cursor_rewound e (hafter.data_eq.trans h.data_eq.symm)
  have hposition : (b.rewound e after).position = b.position := congrArg Cursor.position hcursor
  exact {
    data_eq := (data_rewound b e after).trans hafter.data_eq
    order_eq := hafter.order_eq
    position_le := hposition ▸ h.position_le
    bytesRead_eq := hposition ▸ h.bytesRead_eq
    counters_eq := h.counters_eq }

theorem settle (op : ReadOp) (b : Buffer) : Walked b (op.perform.settle b).2 := by
  apply kept_settle (P := Walked b) _ _ op (refl b)
  · intro n c h
    exact h.receive n
  · intro c e after h hafter
    exact h.rewound hafter e

theorem consume (n : Nat) (b : Buffer) : Walked b ((Buffer.consume n).settle b).2 := by
  rcases Nat.lt_or_ge b.remaining n with hlt | hle
  · rw [Action.settle_of_error (consume_of_lt hlt)]
    exact refl b
  · rw [Action.settle_of_ok (consume_of_le hle)]
    exact (refl b).advance hle

theorem perform {request : Request} (h : request.IsRead) (b : Buffer) :
    Walked b (request.perform b).2 := by
  cases request with
  | stream request =>
    cases hread : request.readOp? with
    | some op =>
      have hstate : (op.perform.settle b).2 = (request.perform b).2 :=
        (OctetStream.Request.settle_readOp hread b).1
      exact hstate ▸ settle op b
    | none =>
      obtain ⟨op, rfl⟩ := OctetStream.Request.eq_write_of_readOp hread
      exact h.elim
  | consume n => exact consume n b
  | peek n => exact h.elim
  | reset => exact h.elim

end Walked

/-- The octets that a buffer began with, or none since it was reset, and the payloads of the writes
that succeeded since, in order. -/
structure Account where
  base : Bytes
  payloads : List Bytes := []

namespace Account

def contents (a : Account) : Bytes :=
  a.base ++ a.payloads.flatten

def after (order : ByteOrder) (a : Account) : Sigma Request.Reply → Account
  | ⟨.stream (.write op), .ok ()⟩ =>
    match op.payload order with
    | .ok data => { a with payloads := a.payloads ++ [data] }
    | .error _ => a
  | ⟨.reset, _⟩ => ⟨[], []⟩
  | _ => a

def afterAll (order : ByteOrder) (a : Account) (replies : List (Sigma Request.Reply)) : Account :=
  replies.foldl (after order) a

structure Holds (order : ByteOrder) (a : Account) (b : Buffer) : Prop where
  order_eq : b.order = order
  data_eq : b.data = a.contents
  position_eq : b.position = b.counters.bytesRead
  counters_eq : b.counters.withoutReads =
    ({} : Counters).addWrites a.payloads.length a.payloads.flatten.length

variable {order : ByteOrder} {a : Account} {b : Buffer}

theorem after_of_isRead {request : Request} (h : request.IsRead) (reply : request.Reply) :
    a.after order ⟨request, reply⟩ = a := by
  cases request with
  | stream request =>
    cases request with
    | write op => exact h.elim
    | _ => rfl
  | consume n => rfl
  | peek n => exact h.elim
  | reset => exact h.elim

theorem Holds.walked (h : Holds order a b) {c : Buffer} (hbc : Walked b c) : Holds order a c where
  order_eq := hbc.order_eq.trans h.order_eq
  data_eq := hbc.data_eq.trans h.data_eq
  position_eq := by
    have hbytes := hbc.bytesRead_eq
    rw [← h.position_eq, Nat.add_comm] at hbytes
    exact (Nat.add_left_cancel hbytes).symm
  counters_eq := hbc.counters_eq.trans h.counters_eq

theorem contents_append (a : Account) (data : Bytes) :
    ({ a with payloads := a.payloads ++ [data] } : Account).contents = a.contents ++ data := by
  simp only [contents, List.flatten_append, List.flatten_singleton, List.append_assoc]

theorem Holds.send (h : Holds order a b) (data : Bytes) :
    Holds order { a with payloads := a.payloads ++ [data] } ((Buffer.send data).settle b).2 where
  order_eq := h.order_eq
  data_eq := by
    rw [contents_append, ← h.data_eq]
    exact Cursor.data_append data b.cursor
  position_eq := h.position_eq
  counters_eq := by
    have hlength : (a.payloads ++ [data]).flatten.length =
        a.payloads.flatten.length + data.length := by
      rw [List.flatten_append, List.flatten_singleton, List.length_append]
    rw [List.length_append, List.length_singleton, hlength, ← Counters.addWrites_addWrites,
      ← h.counters_eq]
    rfl

theorem Holds.write (h : Holds order a b) (op : WriteOp) :
    Holds order (a.after order ⟨.stream (.write op), (op.perform.settle b).1⟩)
      (op.perform.settle b).2 := by
  obtain rfl : b.order = order := h.order_eq
  cases hpayload : op.payload b.order with
  | error e =>
    rw [Action.settle_of_error (WriteOp.perform_of_error hpayload)]
    exact h
  | ok data =>
    have hrun : op.perform b = Buffer.send data b := WriteOp.perform_of_ok hpayload
    have hsend := h.send data
    rw [Action.settle] at hsend ⊢
    rw [hrun]
    simp only [after, hpayload, Buffer.send] at hsend ⊢
    exact hsend

theorem Holds.reset (h : Holds order a b) : Holds order ⟨[], []⟩ b.reset :=
  ⟨h.order_eq, rfl, rfl, rfl⟩

theorem Holds.perform (h : Holds order a b) (request : Request) :
    Holds order (a.after order ⟨request, (request.perform b).1⟩) (request.perform b).2 := by
  rcases request.isRead_or with hread | ⟨op, rfl⟩ | ⟨n, rfl⟩ | rfl
  · rw [after_of_isRead hread]
    exact h.walked (Walked.perform hread b)
  · exact h.write op
  · exact h
  · exact h.reset

theorem Holds.session (h : Holds order a b) (requests : List Request) :
    Holds order (a.afterAll order (session Request.perform requests b).1)
      (session Request.perform requests b).2 := by
  induction requests generalizing a b with
  | nil => exact h
  | cons request requests ih => exact ih (h.perform request)

theorem base_after_of_ne {request : Request} (h : request ≠ .reset) (reply : request.Reply) :
    (a.after order ⟨request, reply⟩).base = a.base := by
  rcases request.isRead_or with hread | ⟨op, rfl⟩ | ⟨n, rfl⟩ | rfl
  · rw [after_of_isRead hread]
  · cases reply with
    | ok done =>
      simp only [after]
      cases op.payload order <;> rfl
    | error e => rfl
  · rfl
  · exact absurd rfl h

theorem base_afterAll (requests : List Request) (a : Account) (b : Buffer) :
    (a.afterAll order (OctetStream.session Request.perform requests b).1).base =
      if .reset ∈ requests then [] else a.base := by
  induction requests generalizing a b with
  | nil => rfl
  | cons request requests ih =>
    refine (ih _ _).trans ?_
    by_cases hreset : request = .reset
    · subst hreset
      rw [if_pos (List.mem_cons_self ..)]
      exact ite_self _
    · rw [base_after_of_ne hreset]
      have hmem : Request.reset ∈ request :: requests ↔ Request.reset ∈ requests := by
        rw [List.mem_cons, or_iff_right (Ne.symm hreset)]
      simp only [hmem]

end Account

structure Grown (b after : Buffer) : Prop where
  data_prefix : b.data <+: after.data
  position_le : b.position ≤ after.position

theorem Grown.refl (b : Buffer) : Grown b b :=
  ⟨List.prefix_rfl, Nat.le_refl _⟩

theorem Grown.trans {b c d : Buffer} (hbc : Grown b c) (hcd : Grown c d) : Grown b d :=
  ⟨hbc.data_prefix.trans hcd.data_prefix, Nat.le_trans hbc.position_le hcd.position_le⟩

theorem Walked.grown {b after : Buffer} (h : Walked b after) : Grown b after :=
  ⟨h.data_eq ▸ List.prefix_rfl, h.position_le⟩

theorem grown_write (op : WriteOp) (b : Buffer) : Grown b (op.perform.settle b).2 := by
  unfold Action.settle WriteOp.perform
  cases op.payload (Medium.order b) with
  | error e => exact .refl b
  | ok data => exact ⟨⟨data, (Cursor.data_append data b.cursor).symm⟩, Nat.le_refl _⟩

theorem grown_perform {request : Request} (h : request ≠ .reset) (b : Buffer) :
    Grown b (request.perform b).2 := by
  rcases request.isRead_or with hread | ⟨op, rfl⟩ | ⟨n, rfl⟩ | rfl
  · exact (Walked.perform hread b).grown
  · exact grown_write op b
  · exact .refl b
  · exact absurd rfl h

theorem grown_session {requests : List Request} (h : .reset ∉ requests) (b : Buffer) :
    Grown b (session Request.perform requests b).2 := by
  induction requests generalizing b with
  | nil => exact .refl b
  | cons request requests ih =>
    rw [List.mem_cons, not_or] at h
    exact (grown_perform (Ne.symm h.1) b).trans (ih h.2 _)

inductive Built : Buffer → Bytes → Prop
  | ofBytes (data : Bytes) (order : ByteOrder) : Built (ofBytes data order) data
  | empty (order : ByteOrder) (capacity : Nat) : Built (empty order capacity) []
  | withOptions {o : Options} {b : Buffer} (h : withOptions o = .ok b) : Built b []

theorem withOptions_eq_ok {o : Options} {b : Buffer} (h : withOptions o = .ok b) :
    b = empty o.order (o.capacityHint.getD 0) := by
  by_cases hcapacity : Limits.maxAllocation < o.capacityHint.getD 0
  · rw [withOptions, if_pos hcapacity] at h
    cases h
  · rw [withOptions, if_neg hcapacity] at h
    exact (Except.ok.inj h).symm

theorem Built.holds {start : Buffer} {base : Bytes} (h : Built start base) :
    Account.Holds start.order ⟨base, []⟩ start := by
  cases h with
  | ofBytes => exact ⟨rfl, (List.append_nil base).symm, rfl, rfl⟩
  | empty => exact ⟨rfl, rfl, rfl, rfl⟩
  | withOptions hmade =>
    rw [withOptions_eq_ok hmade]
    exact ⟨rfl, rfl, rfl, rfl⟩

theorem perform_data_eq {request : Request} (hwrite : ∀ op, request ≠ .stream (.write op))
    (hreset : request ≠ .reset) (b : Buffer) : (request.perform b).2.data = b.data := by
  rcases request.isRead_or with hread | ⟨op, rfl⟩ | ⟨n, rfl⟩ | rfl
  · exact (Walked.perform hread b).data_eq
  · exact absurd rfl (hwrite op)
  · rfl
  · exact absurd rfl hreset

/-- Whatever is asked of a buffer, its octets, its place and its tallies are accounted for. -/
theorem session_is_accounted {start : Buffer} {base : Bytes} (hbuilt : Built start base)
    (requests : List Request) :
    let run := session Request.perform requests start
    let b := run.2
    let account := (⟨base, []⟩ : Account).afterAll start.order run.1
    b.position ≤ b.size ∧ b.position = b.counters.bytesRead ∧
    b.remaining = b.size - b.position ∧ b.size = b.data.length ∧
    b.data = account.base ++ account.payloads.flatten ∧
    account.base = (if .reset ∈ requests then [] else base) ∧
    b.size = account.base.length + b.counters.bytesWritten ∧
    b.counters.writes = account.payloads.length ∧
    b.counters.writeFailures = 0 ∧ b.counters.shortReads = 0 ∧
    (∀ later, .reset ∉ later → Grown b (session Request.perform later b).2) ∧
    ∀ request : Request, (∀ op, request ≠ .stream (.write op)) → request ≠ .reset →
      (request.perform b).2.data = b.data := by
  intro run b account
  have hholds : Account.Holds start.order account b := hbuilt.holds.session requests
  have hcounters := hholds.counters_eq
  have hwritten : b.counters.bytesWritten = account.payloads.flatten.length :=
    (congrArg Counters.bytesWritten hcounters).trans (Nat.zero_add _)
  have hlength : b.size = account.base.length + b.counters.bytesWritten := by
    rw [← length_data, hholds.data_eq, hwritten]
    exact List.length_append
  refine ⟨Nat.le_add_right _ _, hholds.position_eq, (Nat.add_sub_cancel_left ..).symm,
    (length_data b).symm, hholds.data_eq, Account.base_afterAll requests _ start, hlength,
    (congrArg Counters.writes hcounters).trans (Nat.zero_add _),
    congrArg Counters.writeFailures hcounters, congrArg Counters.shortReads hcounters,
    fun later hlater => grown_session hlater b, fun request hwrite hreset => ?_⟩
  exact perform_data_eq hwrite hreset b

theorem short_slice_is_accounted :
    let requests : List Request := [.stream (.write (.bytes [2, 3])),
      .stream (.read (.word .u16 none)), .consume 5,
      .stream (.read (.run .u64 Limits.maxCount none))]
    let b := (session Request.perform requests (ofBytes [1] .big)).2
    Built (ofBytes [1] .big) [1] ∧ b.data = [1] ++ [2, 3] ∧ b.position = b.counters.bytesRead ∧
      b.counters.bytesRead = 2 ∧ b.remaining = b.size - b.position ∧ b.remaining = 1 ∧
      b.counters.writeFailures = 0 := by
  intro requests b
  have hbuilt : Built (ofBytes [1] .big) [1] := .ofBytes [1] .big
  obtain ⟨-, hplace, hremaining, -, hdata, -, -, -, hfailures, -⟩ :=
    session_is_accounted hbuilt requests
  exact ⟨hbuilt, hdata.trans (by decide +kernel), hplace, by decide +kernel, hremaining,
    by decide +kernel, hfailures⟩

end Buffer
end OctetStream
