import OctetStream.Proofs.Buffer.Taken
import OctetStream.Proofs.Encoding

/-! Decoding is canonical. What a series of reads took from a buffer is what the writes of its
answers put, so no two inputs have the same answers. Only the octets behind the first NUL of a field
of fixed width are lost; they come back as NULs. -/

namespace OctetStream

namespace Bytes

theorem padTo_untilNul_eq_iff (b : Bytes) :
    b.untilNul.padTo b.length = b ↔ ∀ c ∈ b.drop (b.untilNul.length + 1), c = nul := by
  rcases eq_untilNul_or b with hall | ⟨rest, hsplit⟩
  · have hnone : b.drop (b.untilNul.length + 1) = [] := by
      rw [hall]
      exact List.drop_eq_nil_of_le (Nat.le_succ _)
    have hpad : b.untilNul.padTo b.length = b := by
      rw [hall, padTo, List.take_length, Nat.sub_self]
      exact List.append_nil b
    rw [hnone]
    exact iff_of_true hpad (List.forall_mem_nil _)
  · generalize b.untilNul = front at hsplit ⊢
    subst hsplit
    have hlength : (front ++ nul :: rest).length = front.length + (rest.length + 1) :=
      List.length_append
    have hpad : front.padTo (front ++ nul :: rest).length =
        front ++ nul :: List.replicate rest.length nul := by
      rw [padTo, hlength, List.take_of_length_le (Nat.le_add_right ..), Nat.add_sub_cancel_left]
      rfl
    have hdrop : (front ++ nul :: rest).drop (front.length + 1) = rest := by
      rw [List.drop_length_add_append]
      rfl
    rw [hpad, hdrop, List.append_right_inj, List.cons_inj_right, eq_comm, List.eq_replicate_iff]
    exact and_iff_right rfl

theorem flatten_map_eq_iff {α : Type} (f g : α → Bytes) (hlength : ∀ x, (f x).length = (g x).length)
    (xs : List α) : (xs.map f).flatten = (xs.map g).flatten ↔ ∀ x ∈ xs, f x = g x := by
  have hlengths : (xs.map f).map List.length = (xs.map g).map List.length := by
    rw [List.map_map, List.map_map]
    exact List.map_congr_left fun x _ => hlength x
  calc (xs.map f).flatten = (xs.map g).flatten
      ↔ xs.map f = xs.map g := by rw [List.eq_iff_flatten_eq, and_iff_left hlengths]
    _ ↔ ∀ x ∈ xs, f x = g x := List.map_inj_left

end Bytes

namespace ReadOp

def rewrite : (op : ReadOp) → op.Value → WriteOp
  | bytes _, v | into _, v => .bytes v
  | word t order?, v => .word t order? v
  | string field order?, v => .string field order? v
  | cstring width, v => .cstring (utf8 v) width
  | cstringBytes width, v => .cstring v width
  | terminated, v => .terminated (utf8 v)
  | terminatedBytes, v => .terminated v
  | array t _ order?, v | run t _ order?, v | fill t _ order?, v => .run t order? v

def rewriteAll (answers : List Answer) : List WriteOp :=
  answers.map fun answer => answer.1.rewrite answer.2

def isFixed : ReadOp → Bool
  | cstring _ | cstringBytes _ => true
  | _ => false

def canonical (op : ReadOp) (part : Bytes) : Bytes :=
  if op.isFixed then part.untilNul.padTo part.length else part

/-- Nothing but NULs stands behind the first NUL of a field of fixed width. -/
def Padded (op : ReadOp) (part : Bytes) : Prop :=
  op.isFixed = true → ∀ c ∈ part.drop (part.untilNul.length + 1), c = Bytes.nul

theorem length_canonical (op : ReadOp) (part : Bytes) :
    (op.canonical part).length = part.length := by
  unfold canonical
  split
  · exact Bytes.length_padTo ..
  · rfl

theorem canonical_eq_iff (op : ReadOp) (part : Bytes) :
    op.canonical part = part ↔ op.Padded part := by
  unfold canonical Padded
  cases op.isFixed with
  | true => simpa using Bytes.padTo_untilNul_eq_iff part
  | false => simp

end ReadOp

namespace Buffer

open Medium

variable {b after : Buffer}

theorem readCStringBytes_eq_ok {width : Nat} {content : Bytes}
    (h : readCStringBytes width b = .ok content after)
    (hstored : b.remaining ≤ Limits.maxAllocation) :
    ∃ part, b.unread = part ++ after.unread ∧ part.untilNul = content ∧
      (WriteOp.cstring content width).payload b.order = .ok (content.padTo part.length) := by
  obtain ⟨part, hbytes, hcontent⟩ := Action.eq_ok_of_map h
  obtain ⟨hunread, hlength⟩ := readBytes_eq_ok hbytes
  have hwidth : width ≤ Limits.maxAllocation := by
    obtain ⟨hle, -, -⟩ := readBytes_eq_advance hbytes
    exact Nat.le_trans hle hstored
  refine ⟨part, hunread, hcontent, ?_⟩
  rw [WriteOp.payload, if_neg (Nat.not_lt.mpr hwidth), hlength]

theorem payload_rewrite (op : ReadOp) {v : op.Value} (h : op.perform b = .ok v after)
    (hstored : op.isFixed = true → b.remaining ≤ Limits.maxAllocation) :
    ∃ part, b.unread = part ++ after.unread ∧
      (op.rewrite v).payload b.order = .ok (op.canonical part) := by
  cases op with
  | bytes n => exact ⟨v, (readBytes_eq_ok h).1, rfl⟩
  | into dest =>
    rw [ReadOp.perform, slotsOf_readInto] at h
    obtain ⟨got, hbytes, hslots⟩ := Action.eq_ok_of_map h
    obtain ⟨hunread, hlength⟩ := fetch_eq_ok hbytes
    rw [overwrite_of_length_eq hlength.symm] at hslots
    exact ⟨got, hunread, congrArg Except.ok hslots.symm⟩
  | word t order? => exact ⟨_, readWord_eq_ok h, rfl⟩
  | string field order? =>
    obtain ⟨hfits, hunread⟩ := readString_eq_ok h
    exact ⟨_, hunread, if_pos hfits⟩
  | cstring width =>
    have hbytes := textOf_eq_ok (eq_ok_of_atomically h)
    obtain ⟨part, hunread, hcontent, hpayload⟩ := readCStringBytes_eq_ok hbytes (hstored rfl)
    rw [← hcontent] at hpayload
    refine ⟨part, hunread, ?_⟩
    rw [ReadOp.rewrite, ← hcontent]
    exact hpayload
  | cstringBytes width =>
    obtain ⟨part, hunread, rfl, hpayload⟩ := readCStringBytes_eq_ok h (hstored rfl)
    exact ⟨part, hunread, hpayload⟩
  | terminated =>
    have hbytes := textOf_eq_ok (eq_ok_of_atomically h)
    exact ⟨_, readUntilNul_eq_ok hbytes, rfl⟩
  | terminatedBytes => exact ⟨_, readUntilNul_eq_ok (eq_ok_of_atomically h), rfl⟩
  | array t n order? =>
    rw [ReadOp.perform, readArray_eq_readRun] at h
    obtain ⟨-, hpayload, hunread⟩ := readRun_eq_ok h
    exact ⟨_, hunread, hpayload⟩
  | run t n order? =>
    obtain ⟨-, hpayload, hunread⟩ := readRun_eq_ok h
    exact ⟨_, hunread, hpayload⟩
  | fill t dest order? =>
    rw [ReadOp.perform, slotsOf_fillRun_eq_readRun] at h
    obtain ⟨-, hpayload, hunread⟩ := readRun_eq_ok h
    exact ⟨_, hunread, hpayload⟩

def parts : List ReadOp → Buffer → List (ReadOp × Bytes)
  | [], _ => []
  | op :: ops, b =>
    match op.perform b with
    | .ok _ after => (op, taken b after) :: parts ops after
    | .error _ _ => []

structure Rewritten (ops : List ReadOp) (answers : List ReadOp.Answer) (b after : Buffer) :
    Prop where
  reads_eq : (parts ops b).map Prod.fst = ops
  unread_eq : b.unread = ((parts ops b).map Prod.snd).flatten ++ after.unread
  payloads_eq : WriteOp.payloads b.order (ReadOp.rewriteAll answers) =
    (parts ops b).map fun x => x.1.canonical x.2
  firstError_eq : WriteOp.firstError b.order (ReadOp.rewriteAll answers) = none

theorem parts_cons {op : ReadOp} {v : op.Value} {next : Buffer} {part : Bytes} (ops : List ReadOp)
    (hfirst : op.perform b = .ok v next) (hunread : b.unread = part ++ next.unread) :
    parts (op :: ops) b = (op, part) :: parts ops next := by
  rw [parts, hfirst]
  exact congrArg (fun part => (op, part) :: parts ops next) (taken_of_append hunread)

theorem Rewritten.cons {op : ReadOp} {v : op.Value} {ops : List ReadOp}
    {answers : List ReadOp.Answer} {next : Buffer} {part : Bytes}
    (hfirst : op.perform b = .ok v next) (hunread : b.unread = part ++ next.unread)
    (hpayload : (op.rewrite v).payload b.order = .ok (op.canonical part))
    (h : Rewritten ops answers next after) :
    Rewritten (op :: ops) (⟨op, v⟩ :: answers) b after where
  reads_eq := by rw [parts_cons ops hfirst hunread, List.map_cons, h.reads_eq]
  unread_eq := by
    rw [parts_cons ops hfirst hunread, List.map_cons, List.flatten_cons, List.append_assoc,
      ← h.unread_eq]
    exact hunread
  payloads_eq := by
    have hothers := h.payloads_eq
    rw [order_of_ok hfirst] at hothers
    rw [parts_cons ops hfirst hunread, List.map_cons, ← hothers]
    simp only [ReadOp.rewriteAll, List.map_cons, WriteOp.payloads, hpayload]
  firstError_eq := by
    have hothers := h.firstError_eq
    rw [order_of_ok hfirst] at hothers
    rw [← hothers]
    simp only [ReadOp.rewriteAll, List.map_cons, WriteOp.firstError, hpayload]

theorem rewritten (ops : List ReadOp) {answers : List ReadOp.Answer}
    (h : ReadOp.performAll ops b = .ok answers after)
    (hstored : ∀ op ∈ ops, op.isFixed = true → b.remaining ≤ Limits.maxAllocation) :
    Rewritten ops answers b after := by
  induction ops generalizing b answers with
  | nil =>
    cases h
    exact ⟨rfl, rfl, rfl, rfl⟩
  | cons op ops ih =>
    obtain ⟨v, next, hfirst, hrest⟩ := Action.eq_ok_of_bind h
    obtain ⟨others, hothers, rfl⟩ := Action.eq_ok_of_map hrest
    obtain ⟨part, hunread, hpayload⟩ := payload_rewrite op hfirst (hstored op List.mem_cons_self)
    have hleft : next.remaining ≤ b.remaining := by
      show next.unread.length ≤ b.unread.length
      rw [hunread, List.length_append]
      exact Nat.le_add_left ..
    apply Rewritten.cons hfirst hunread hpayload
    apply ih hothers
    intro op' hmem hfixed
    exact Nat.le_trans hleft (hstored op' (List.mem_cons_of_mem _ hmem) hfixed)

section

variable {order : ByteOrder} {ops : List ReadOp} {d : Bytes} {answers : List ReadOp.Answer}

theorem write_back (h : Rewritten ops answers (ofBytes d order) after)
    (hleft : after.isExhausted = true) (capacity : Nat) :
    ∃ t, WriteOp.performAll (ReadOp.rewriteAll answers) (Buffer.empty order capacity) = .ok () t ∧
      (t.data = d ↔ ∀ x ∈ parts ops (ofBytes d order), x.1.Padded x.2) := by
  obtain ⟨t, hput, hrun⟩ := Writable.put_payloads (ReadOp.rewriteAll answers)
    (s := Buffer.empty order capacity) trivial
  have hdone : WriteOp.firstError (Medium.order (Buffer.empty order capacity))
      (ReadOp.rewriteAll answers) = none := h.firstError_eq
  rw [hdone] at hrun
  have hwritten : t.data = ((parts ops (ofBytes d order)).map fun x => x.1.canonical x.2).flatten :=
    hput.written_eq.trans (congrArg List.flatten h.payloads_eq)
  have htaken : d = ((parts ops (ofBytes d order)).map Prod.snd).flatten := by
    have hunread : d = _ ++ after.unread := h.unread_eq
    have hnone : after.unread = [] := List.isEmpty_iff.mp hleft
    rw [hnone, List.append_nil] at hunread
    exact hunread
  have hlengths (x : ReadOp × Bytes) : (x.1.canonical x.2).length = x.2.length :=
    x.1.length_canonical x.2
  refine ⟨t, hrun, ?_⟩
  calc t.data = d
      ↔ ((parts ops (ofBytes d order)).map fun x => x.1.canonical x.2).flatten =
          ((parts ops (ofBytes d order)).map Prod.snd).flatten := by rw [hwritten, ← htaken]
    _ ↔ ∀ x ∈ parts ops (ofBytes d order), x.1.canonical x.2 = x.2 :=
      Bytes.flatten_map_eq_iff _ _ hlengths _
    _ ↔ ∀ x ∈ parts ops (ofBytes d order), x.1.Padded x.2 :=
      forall₂_congr fun x _ => x.1.canonical_eq_iff x.2

theorem write_back_whole (hread : ReadOp.performAll ops (ofBytes d order) = .ok answers after)
    (hleft : after.isExhausted = true) (hplain : ∀ op ∈ ops, op.isFixed = false) (capacity : Nat) :
    ∃ t, WriteOp.performAll (ReadOp.rewriteAll answers) (Buffer.empty order capacity) = .ok () t ∧
      t.data = d := by
  have hrewritten : Rewritten ops answers (ofBytes d order) after := by
    apply rewritten ops hread
    intro op hmem hfixed
    rw [hplain op hmem] at hfixed
    cases hfixed
  obtain ⟨t, hrun, hdata⟩ := write_back hrewritten hleft capacity
  refine ⟨t, hrun, hdata.mpr fun x hx hfixed => ?_⟩
  have hmem : x.1 ∈ ops := by
    rw [← hrewritten.reads_eq]
    exact List.mem_map_of_mem hx
  rw [hplain x.1 hmem] at hfixed
  cases hfixed

/-- A series of reads that exhausts its input can be written back. Without fields of fixed width
this gives the input, so no other input has the same answers. With such fields it gives the input
exactly where nothing but NULs stands behind the first NUL of each. An input that is held at all
fits one allocation, and so do its fields when they are written. -/
theorem decoding_is_canonical
    (hread : ReadOp.performAll ops (ofBytes d order) = .ok answers after)
    (hleft : after.isExhausted = true) (capacity : Nat) :
    ((∀ op ∈ ops, op.isFixed = false) →
      (∃ t, WriteOp.performAll (ReadOp.rewriteAll answers) (Buffer.empty order capacity) =
          .ok () t ∧
        t.data = d) ∧
      ∀ d' after', ReadOp.performAll ops (ofBytes d' order) = .ok answers after' →
        after'.isExhausted = true → d' = d) ∧
    (d.length ≤ Limits.maxAllocation →
      ∃ t, WriteOp.performAll (ReadOp.rewriteAll answers) (Buffer.empty order capacity) = .ok () t ∧
        (t.data = d ↔ ∀ x ∈ parts ops (ofBytes d order), x.1.isFixed = true →
          ∀ c ∈ x.2.drop (x.2.untilNul.length + 1), c = Bytes.nul)) := by
  refine ⟨fun hplain => ⟨write_back_whole hread hleft hplain capacity, ?_⟩, fun hstored => ?_⟩
  · intro d' after' hread' hleft'
    obtain ⟨t, hrun, rfl⟩ := write_back_whole hread hleft hplain capacity
    obtain ⟨t', hrun', rfl⟩ := write_back_whole hread' hleft' hplain capacity
    have hsame := hrun'.symm.trans hrun
    cases hsame
    rfl
  · exact write_back (rewritten ops hread fun _ _ _ => hstored) hleft capacity

end

theorem unclean_field_is_not_written_back :
    let ops : List ReadOp := [.run .u16 2 (some .big), .cstringBytes 4, .terminatedBytes]
    let d : Bytes := [1, 2, 3, 4, 65, 0, 7, 0, 104, 105, 0]
    let answers : List ReadOp.Answer :=
      [⟨.run .u16 2 (some .big), [258, 772]⟩, ⟨.cstringBytes 4, [65]⟩,
        ⟨.terminatedBytes, [104, 105]⟩]
    ∃ after t, ReadOp.performAll ops (ofBytes d .little) = .ok answers after ∧
      after.isExhausted = true ∧
      WriteOp.performAll (ReadOp.rewriteAll answers) (Buffer.empty .little) = .ok () t ∧
      t.data ≠ d := by
  intro ops d answers
  obtain ⟨after, hread, hleft⟩ : ∃ after,
      ReadOp.performAll ops (ofBytes d .little) = .ok answers after ∧ after.isExhausted = true := by
    subst ops d answers
    exact ⟨_, rfl, rfl⟩
  have hunclean : ¬∀ x ∈ parts ops (ofBytes d .little), x.1.isFixed = true →
      ∀ c ∈ x.2.drop (x.2.untilNul.length + 1), c = Bytes.nul := by
    decide +kernel
  obtain ⟨t, hrun, hdata⟩ := (decoding_is_canonical hread hleft 0).2 (by decide)
  exact ⟨after, t, hread, hleft, hrun, fun hsame => hunclean (hdata.mp hsame)⟩

end Buffer
end OctetStream
