import OctetStream.Proofs.Alongside
import OctetStream.Proofs.Field

/-! The octets that a read of a buffer took. A read that succeeds took them off the front of what
was unread, and its answer tells what they were: only what stands behind the first NUL of a field of
fixed width is not in it. -/

namespace OctetStream.Buffer

open Medium

variable {b after : Buffer}

def taken (b after : Buffer) : Bytes :=
  b.unread.take (b.remaining - after.remaining)

theorem taken_of_append {part : Bytes} (h : b.unread = part ++ after.unread) :
    taken b after = part := by
  have hlength : b.remaining = part.length + after.remaining := by
    show b.unread.length = part.length + after.unread.length
    rw [h, List.length_append]
  rw [taken, hlength, Nat.add_sub_cancel, h, List.take_left]

theorem order_of_ok {op : ReadOp} {v : op.Value} (h : op.perform b = .ok v after) :
    after.order = b.order := by
  have horder := order_settle op b
  rw [Action.settle_of_ok h] at horder
  exact horder

theorem eq_ok_of_atomically {α : Type} {x : Action Buffer α} {a : α}
    (h : atomically x b = .ok a after) : x b = .ok a after := by
  cases hx : x b with
  | ok a' t =>
    rw [atomically_of_ok hx] at h
    exact h
  | error e t =>
    rw [atomically_of_error hx] at h
    cases h

theorem fetch_eq_ok {n : Nat} {got : Bytes} (h : fetch n b = .ok got after) :
    b.unread = got ++ after.unread ∧ got.length = n := by
  obtain ⟨hle, rfl, rfl⟩ := demand_eq_ok h
  exact ⟨(List.take_append_drop n b.unread).symm, List.length_take_of_le hle⟩

theorem readBytes_eq_ok {n : Nat} {got : Bytes} (h : readBytes n b = .ok got after) :
    b.unread = got ++ after.unread ∧ got.length = n := by
  rw [readBytes_eq_demand] at h
  exact fetch_eq_ok h

theorem readWord_eq_ok {t : Primitive} {order? : Option ByteOrder} {v : Word t}
    (h : readWord t order? b = .ok v after) :
    b.unread = v.put (order?.getD b.order) ++ after.unread := by
  have hread : (fetch t.width >>= fun got => pure (Word.get t (order?.getD b.order) got)) b =
      .ok v after := h
  obtain ⟨got, hfetch, rfl⟩ := Action.eq_ok_of_map hread
  obtain ⟨hunread, hlength⟩ := fetch_eq_ok hfetch
  rw [Word.put_get _ hlength]
  exact hunread

theorem readOctet_eq_ok {c : UInt8} (h : readOctet b = .ok c after) :
    b.unread = c :: after.unread := by
  obtain ⟨got, hfetch, rfl⟩ := Action.eq_ok_of_map h
  obtain ⟨hunread, hlength⟩ := fetch_eq_ok hfetch
  obtain ⟨c, rfl⟩ := List.length_eq_one_iff.mp hlength
  exact hunread

theorem collectUntilNul_eq_ok (fuel count : Nat) (acc : Bytes) {got : Bytes}
    (hfuel : b.remaining ≤ fuel) (h : collectUntilNul none fuel count acc b = .ok got after) :
    ∃ content, got = acc.reverse ++ content ∧ b.unread = content ++ Bytes.nul :: after.unread := by
  induction fuel generalizing count acc b with
  | zero =>
    obtain ⟨c, hread, -⟩ := Action.eq_ok_of_map h
    have hleft := readOctet_ok hread
    omega
  | succ fuel ih =>
    obtain ⟨c, next, hread, hrest⟩ := Action.eq_ok_of_bind h
    have hunread := readOctet_eq_ok hread
    have hleft := readOctet_ok hread
    by_cases hnul : c = Bytes.nul
    · rw [if_pos hnul] at hrest
      cases hrest
      exact ⟨[], (List.append_nil _).symm, hnul ▸ hunread⟩
    · rw [if_neg hnul] at hrest
      obtain ⟨content, rfl, hcontent⟩ := ih (count + 1) (c :: acc) (by omega) hrest
      refine ⟨c :: content, ?_, ?_⟩
      · rw [List.reverse_cons, List.append_assoc, List.singleton_append]
      · rw [hunread, hcontent, List.cons_append]

theorem readUntilNul_eq_ok {content : Bytes} (h : readUntilNul b = .ok content after) :
    b.unread = (content ++ [Bytes.nul]) ++ after.unread := by
  have hcollect : collectUntilNul none b.remaining 0 [] b = .ok content after := h
  obtain ⟨content', rfl, hunread⟩ := collectUntilNul_eq_ok _ 0 [] (Nat.le_refl _) hcollect
  rw [List.append_assoc]
  exact hunread

theorem textOf_of_text {x : Action Buffer Bytes} {content : Bytes} {text : String}
    (hx : x b = .ok content after) (htext : ofUtf8? content = some text) :
    atomically (do let start ← currentOffset; ofExcept (textAt start (← x))) b =
      .ok text after := by
  have hread : (x >>= fun got => ofExcept (textAt b.position got)) b = .ok text after := by
    rw [Action.bind_of_ok hx, textAt, htext]
    rfl
  exact atomically_of_ok hread

theorem textOf_of_not_text {x : Action Buffer Bytes} {content : Bytes}
    (hx : x b = .ok content after) (htext : ofUtf8? content = none) :
    ∃ failed, atomically (do let start ← currentOffset; ofExcept (textAt start (← x))) b =
      .error (.invalidUtf8 b.position) failed := by
  have hread : (x >>= fun got => ofExcept (textAt b.position got)) b =
      .error (.invalidUtf8 b.position) after := by
    rw [Action.bind_of_ok hx, textAt, htext]
    rfl
  exact ⟨_, atomically_of_error hread⟩

theorem readString_eq_ok {field : LengthField} {order? : Option ByteOrder} {text : String}
    (h : readString field order? b = .ok text after) :
    (utf8 text).length ≤ field.max ∧
      b.unread = ((order?.getD b.order).encode field.width (utf8 text).length ++ utf8 text) ++
        after.unread := by
  have hparts : (readWord field.primitive order? >>= fun len =>
      permit len.toNat >>= fun _ => readBytes len.toNat) b = .ok (utf8 text) after := by
    apply textOf_eq_ok
    simp only [bind_assoc]
    exact eq_ok_of_atomically h
  obtain ⟨len, next, hword, hrest⟩ := Action.eq_ok_of_bind hparts
  have hbytes : readBytes len.toNat next = .ok (utf8 text) after := hrest
  obtain ⟨htext, hlength⟩ := readBytes_eq_ok hbytes
  have hput : len.put (order?.getD b.order) =
      (order?.getD b.order).encode field.width (utf8 text).length := by
    rw [hlength]
    rfl
  refine ⟨?_, ?_⟩
  · rw [LengthField.le_max_iff, hlength, BitVec.toNat_ofNat]
    exact Nat.mod_eq_of_lt len.isLt
  · rw [readWord_eq_ok hword, hput, htext, List.append_assoc]

section

variable {t : Primitive} {n : Nat} {order? : Option ByteOrder} {values : List (Word t)}

theorem values_eq_ok {order : ByteOrder}
    (h : (readBytes (n * t.width) >>= fun got => pure (Word.getAll t order got)) b =
      .ok values after) :
    values.length = n ∧ b.unread = Word.putAll order values ++ after.unread := by
  obtain ⟨got, hbytes, rfl⟩ := Action.eq_ok_of_map h
  obtain ⟨hunread, hlength⟩ := readBytes_eq_ok hbytes
  obtain ⟨hput, hcount⟩ := Word.putAll_getAll order hlength
  rw [hput]
  exact ⟨hcount, hunread⟩

theorem payload_of_values {total : Nat} (hlength : runLength t n = .ok total)
    (hvalues : values.length = n) (order : ByteOrder) :
    (WriteOp.run t order? values).payload order =
      .ok (Word.putAll (order?.getD order) values) := by
  rw [WriteOp.payload_run, hvalues, hlength]
  rfl

theorem readRun_of_length {total : Nat} (h : runLength t n = .ok total) :
    readRun t n order? b =
      (readBytes total >>= fun got => pure (Word.getAll t (order?.getD b.order) got)) b :=
  readRun_of_ok h

theorem readRun_eq_ok (h : readRun t n order? b = .ok values after) :
    values.length = n ∧
      (WriteOp.run t order? values).payload b.order =
        .ok (Word.putAll (order?.getD b.order) values) ∧
      b.unread = Word.putAll (order?.getD b.order) values ++ after.unread := by
  cases hlength : runLength t n with
  | error e =>
    rw [readRun_of_error hlength] at h
    cases h
  | ok total =>
    rw [readRun_of_length hlength, ← runLength_eq_ok hlength] at h
    obtain ⟨hcount, hunread⟩ := values_eq_ok h
    exact ⟨hcount, payload_of_values hlength hcount b.order, hunread⟩

/-- All octets of a run come or none, so every loop that goes through these octets value by value
reads the same run. -/
theorem readFixed_eq_readRun {loop : ByteOrder → Bytes → List (Word t)}
    (hloop : ∀ order raw, raw.length = n * t.width → loop order raw = Word.getAll t order raw)
    (order? : Option ByteOrder) (b : Buffer) :
    readFixed n order? loop b = readRun t n order? b := by
  cases hlength : runLength t n with
  | error e => rw [readFixed_of_error hlength, readRun_of_error hlength]
  | ok total =>
    rw [readFixed_of_ok hlength, readRun_of_length hlength]
    refine Action.bind_congr fun raw last hbytes => ?_
    have hraw : raw.length = n * t.width :=
      (readBytes_eq_ok hbytes).2.trans (runLength_eq_ok hlength).symm
    rw [hloop _ raw hraw]
    rfl

theorem readArray_eq_readRun (t : Primitive) (n : Nat) (order? : Option ByteOrder) (b : Buffer) :
    readArray t n order? b = readRun t n order? b :=
  readFixed_eq_readRun (fun order _ => Word.getArray_eq_getAll order) order? b

theorem slotsOf_fillRun_eq_readRun (dest : List (Word t)) (order? : Option ByteOrder) (b : Buffer) :
    slotsOf (fillRun dest order?) b = readRun t dest.length order? b := by
  rw [slotsOf_fillRun]
  exact readFixed_eq_readRun (fun order _ => Word.fillAll_eq_getAll order) order? b

end
end OctetStream.Buffer
