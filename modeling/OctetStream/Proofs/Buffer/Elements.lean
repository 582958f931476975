import OctetStream.Proofs.Buffer.Taken
import OctetStream.Proofs.RoundTrip

/-! An element run of a buffer and the loop of its elements. A run is written as its values one by
one, and where the values can be read one by one, a run gives the same ones and stops at the same
place. Otherwise the loop stops at the value that is cut, the run before the first. -/

namespace OctetStream

open Medium

theorem Word.put_getD {t : Primitive} {order : ByteOrder} {element : Option ByteOrder}
    (h : element = some order ∨ t.width = 1) (own : ByteOrder) (v : Word t) :
    v.put (element.getD own) = v.put order := by
  rcases h with rfl | hwidth
  · rfl
  · unfold Word.put ByteOrder.encode
    generalize v.toNat = n
    rw [hwidth]
    cases element.getD own <;> cases order <;> rfl

namespace Field

variable {t : Primitive} {element : Option ByteOrder}

def words (element : Option ByteOrder) (values : List (Word t)) : List Field :=
  values.map (word t element)

theorem read_words (values : List (Word t)) :
    (words element values).map read = List.replicate values.length (.word t element) := by
  rw [words, List.map_map]
  exact List.map_const' ..

theorem answer_words (values : List (Word t)) :
    (words element values).map answer = values.map fun v => ⟨.word t element, v⟩ := by
  rw [words, List.map_map]
  rfl

theorem write_words (values : List (Word t)) :
    (words element values).map write = values.map (.word t element) := by
  rw [words, List.map_map]
  rfl

theorem encodeAll_words {order : ByteOrder} (h : element = some order ∨ t.width = 1)
    (own : ByteOrder) (values : List (Word t)) :
    encodeAll own (words element values) = Word.putAll order values := by
  rw [encodeAll, words, List.flatMap_map, Word.putAll]
  exact congrArg (List.flatMap · values) (funext (Word.put_getD h own))

end Field

namespace Buffer

variable {t : Primitive} {n : Nat} {order : ByteOrder} {element order? : Option ByteOrder}
variable {values : List (Word t)} {b after : Buffer}

/-! ## What a run does -/

theorem readRun_of_maxCount_lt (h : Limits.maxCount < n * t.width) :
    readRun t n order? b = .error (.lengthLimit n (Limits.maxCount / t.width)) b :=
  readRun_of_error (if_neg (Nat.not_le.mpr h))

theorem readRun_of_remaining_lt (order? : Option ByteOrder)
    (hcount : n * t.width ≤ Limits.maxCount) (h : b.remaining < n * t.width) :
    ∃ after, readRun t n order? b =
        .error (.outOfBounds (n * t.width) b.remaining b.position) after ∧
      FailedOnce b after := by
  have hfailed := readBytes_of_lt h
  refine ⟨_, ?_, failedOnce_of_readBytes hfailed⟩
  rw [readRun_of_length (if_pos hcount)]
  exact Action.bind_of_error hfailed

theorem readRun_of_le (hcount : n * t.width ≤ Limits.maxCount) (h : n * t.width ≤ b.remaining) :
    readRun t n order? b =
      .ok (Word.getAll t (order?.getD b.order) (b.unread.take (n * t.width)))
        (b.advance (n * t.width)) := by
  rw [readRun_of_length (if_pos hcount)]
  exact Action.bind_of_ok (f := fun got : Bytes => pure (Word.getAll t (order?.getD b.order) got))
    (readBytes_of_le h)

/-! ## What the loop does -/

theorem remaining_of_elements {answers : List ReadOp.Answer}
    (h : ReadOp.performAll (List.replicate n (.word t element)) b = .ok answers after) :
    b.remaining = n * t.width + after.remaining := by
  induction n generalizing b answers with
  | zero =>
    cases h
    omega
  | succ n ih =>
    obtain ⟨v, next, hfirst, hrest⟩ := Action.eq_ok_of_bind h
    obtain ⟨others, hothers, -⟩ := Action.eq_ok_of_map hrest
    have hunread := congrArg List.length (readWord_eq_ok hfirst)
    rw [List.length_append, Word.length_put] at hunread
    calc b.remaining = t.width + next.remaining := hunread
      _ = t.width + (n * t.width + after.remaining) := by rw [ih hothers]
      _ = (n + 1) * t.width + after.remaining := by
        rw [Nat.succ_mul]
        omega

theorem elements_of_unread {rest : Bytes} (helement : element = some order ∨ t.width = 1)
    (h : b.unread = Word.putAll order values ++ rest) :
    ∃ after, ReadOp.performAll (List.replicate values.length (.word t element)) b =
        .ok (values.map fun v => ⟨.word t element, v⟩) after ∧
      after.position = b.position + values.length * t.width ∧
      after.counters.bytesRead = b.counters.bytesRead + values.length * t.width := by
  have hencoded := Field.encodeAll_words helement b.order values
  have hunread : b.unread = Field.encodeAll b.order (Field.words element values) ++ rest := by
    rw [hencoded, h]
  obtain ⟨after, hread, hpassed⟩ :=
    Field.yields_readAll (Field.words element values) (s := b) trivial hunread nofun
  rw [Field.read_words, Field.answer_words] at hread
  rw [show Medium.order b = b.order from rfl, hencoded, Word.length_putAll] at hpassed
  exact ⟨after, hread, hpassed.offset_eq, congrArg Counters.bytesRead hpassed.counters_eq⟩

/-! ## Both -/

def runFailure (t : Primitive) (n : Nat) (b : Buffer) : StreamError :=
  if Limits.maxCount < n * t.width then .lengthLimit n (Limits.maxCount / t.width)
  else .outOfBounds (n * t.width) b.remaining b.position

theorem readRun_of_lt (order? : Option ByteOrder) (h : b.remaining < n * t.width) :
    ∃ after, readRun t n order? b = .error (b.runFailure t n) after ∧ after.cursor = b.cursor ∧
      after.counters.bytesRead = b.counters.bytesRead := by
  rw [runFailure]
  rcases Nat.lt_or_ge Limits.maxCount (n * t.width) with hlt | hcount
  · rw [if_pos hlt]
    exact ⟨b, readRun_of_maxCount_lt hlt, rfl, rfl⟩
  · rw [if_neg (Nat.not_lt.mpr hcount)]
    obtain ⟨after, hread, hfailed⟩ := readRun_of_remaining_lt order? hcount h
    exact ⟨after, hread, hfailed.cursor_eq, by rw [hfailed.counters_eq]; rfl⟩

theorem elements_of_lt (element : Option ByteOrder) (h : b.remaining < n * t.width) :
    ∃ e after, ReadOp.performAll (List.replicate n (.word t element)) b = .error e after := by
  cases hread : ReadOp.performAll (List.replicate n (.word t element)) b with
  | ok answers after =>
    have hremaining := remaining_of_elements hread
    omega
  | error e after => exact ⟨e, after, rfl⟩

theorem maxCount_of_remaining (hstored : b.size ≤ Limits.maxAllocation) {total : Nat}
    (h : total ≤ b.remaining) : total ≤ Limits.maxCount := by
  have hremaining : b.remaining ≤ b.size := b.size_eq ▸ Nat.le_add_left ..
  exact Nat.le_trans (Nat.le_trans h hremaining) (Nat.le_trans hstored (by decide))

theorem elements_of_le (hstored : b.size ≤ Limits.maxAllocation)
    (helement : element = some order ∨ t.width = 1) (h : n * t.width ≤ b.remaining) :
    ∃ values after last, readRun t n (some order) b = .ok values after ∧ values.length = n ∧
      ReadOp.performAll (List.replicate n (.word t element)) b =
        .ok (values.map fun v => ⟨.word t element, v⟩) last ∧
      last.position = after.position ∧ last.counters.bytesRead = after.counters.bytesRead := by
  have hread : readRun t n (some order) b = .ok _ (b.advance (n * t.width)) :=
    readRun_of_le (maxCount_of_remaining hstored h) h
  obtain ⟨hlength, -, hunread⟩ := readRun_eq_ok hread
  obtain ⟨last, helements, hposition, hbytes⟩ := elements_of_unread helement hunread
  rw [hlength] at helements hposition hbytes
  refine ⟨_, _, last, hread, hlength, helements, ?_, hbytes⟩
  rw [hposition, position_advance h]

theorem write_elements (helement : element = some order ∨ t.width = 1) (values : List (Word t))
    (hfits : values.length * t.width ≤ Limits.maxAllocation) (b : Buffer) :
    ∃ whole each, (WriteOp.run t (some order) values).perform b = .ok () whole ∧
      WriteOp.performAll (values.map (.word t element)) b = .ok () each ∧
      whole.data = b.data ++ values.flatMap (Word.put order) ∧ each.data = whole.data := by
  have hpayload : (WriteOp.run t (some order) values).payload (Medium.order b) =
      .ok (Word.putAll order values) :=
    Field.payload_write (Medium.order b) (.run t (some order) values hfits)
  obtain ⟨each, heach, hput⟩ := Field.put_writeAll (Field.words element values) (s := b) trivial
  rw [Field.write_words] at heach
  rw [Field.encodeAll_words helement] at hput
  have hdata : each.data = b.data ++ Word.putAll order values := hput.written_eq
  refine ⟨_, each, WriteOp.perform_of_ok hpayload, heach, ?_, ?_⟩
  · exact Cursor.data_append ..
  · rw [hdata]
    exact (Cursor.data_append ..).symm

theorem fillRun_eq (dest : List (Word t)) (order? : Option ByteOrder) (b : Buffer) :
    fillRun dest order? b = match readRun t dest.length order? b with
      | .ok values after => (⟨none, values⟩, after)
      | .error e after => (⟨some e, dest⟩, after) := by
  have hloop : readFixed dest.length order? (fun order => Word.fillAll order dest) b =
      readRun t dest.length order? b :=
    readFixed_eq_readRun (fun order _ => Word.fillAll_eq_getAll order) order? b
  rw [← hloop, fillRun]
  cases readFixed dest.length order? (fun order => Word.fillAll order dest) b <;> rfl

/-- A run of values in a buffer beside the values one by one. Both ways of writing append the same
octets. A run can be read just where its values can, and gives the same values from the same place;
where it cannot be read, nothing is consumed and the error tells of the whole run. Arrays and slots
are read as runs are, and slots keep what they held where a read fails, on a channel too. -/
theorem run_is_its_elements {t : Primitive} {order : ByteOrder} {element : Option ByteOrder}
    (helement : element = some order ∨ t.width = 1) (b : Buffer) (c : Channel)
    (hstored : b.size ≤ Limits.maxAllocation) :
    (∀ values : List (Word t), values.length * t.width ≤ Limits.maxAllocation →
      ∃ whole each, (WriteOp.run t (some order) values).perform b = .ok () whole ∧
        WriteOp.performAll (values.map (.word t element)) b = .ok () each ∧
        whole.data = b.data ++ values.flatMap (Word.put order) ∧ each.data = whole.data) ∧
    (∀ n,
      let run := readRun t n (some order) b
      let elements := ReadOp.performAll (List.replicate n (.word t element)) b
      ((∃ values after, run = .ok values after) ↔ n * t.width ≤ b.remaining) ∧
      ((∃ answers last, elements = .ok answers last) ↔ n * t.width ≤ b.remaining) ∧
      (∀ values after, run = .ok values after → values.length = n ∧
        ∃ last, elements = .ok (values.map fun v => ⟨.word t element, v⟩) last ∧
          last.position = after.position ∧
          last.counters.bytesRead = after.counters.bytesRead) ∧
      (∀ e after, run = .error e after →
        after.position = b.position ∧ after.unread = b.unread ∧
        after.counters.bytesRead = b.counters.bytesRead ∧
        e = if Limits.maxCount < n * t.width then .lengthLimit n (Limits.maxCount / t.width)
          else .outOfBounds (n * t.width) b.remaining b.position) ∧
      readArray t n (some order) b = run) ∧
    (∀ dest : List (Word t),
      fillRun dest (some order) b = match readRun t dest.length (some order) b with
        | .ok values after => (⟨none, values⟩, after)
        | .error e after => (⟨some e, dest⟩, after)) ∧
    (∀ dest : List (Word t), (fillRun dest (some order) c).1.failure ≠ none →
      (fillRun dest (some order) c).1.slots = dest) := by
  refine ⟨fun values hfits => write_elements helement values hfits b, fun n => ?_,
    fun dest => fillRun_eq dest _ b, fun dest => slots_of_failed_fillRun dest _ c⟩
  intro run elements
  have hsame : readArray t n (some order) b = run := readArray_eq_readRun t n (some order) b
  rcases Nat.lt_or_ge b.remaining (n * t.width) with hlt | hle
  · obtain ⟨after, hrun, hcursor, hbytes⟩ := readRun_of_lt (some order) hlt
    obtain ⟨f, last, helements⟩ := elements_of_lt element hlt
    have hrun : run = .error (b.runFailure t n) after := hrun
    have helements : elements = .error f last := helements
    rw [hrun, helements]
    refine ⟨?_, ?_, nofun, ?_, hsame.trans hrun⟩
    · exact iff_of_false nofun (Nat.not_le.mpr hlt)
    · exact iff_of_false nofun (Nat.not_le.mpr hlt)
    · rintro e _ ⟨⟩
      exact ⟨congrArg Cursor.position hcursor, congrArg Cursor.ahead hcursor, hbytes, rfl⟩
  · obtain ⟨values, after, last, hrun, hlength, helements, hposition, hbytes⟩ :=
      elements_of_le hstored helement hle
    have hrun : run = .ok values after := hrun
    have helements : elements = .ok (values.map fun v => ⟨.word t element, v⟩) last := helements
    rw [hrun, helements]
    refine ⟨?_, ?_, ?_, nofun, hsame.trans hrun⟩
    · exact iff_of_true ⟨values, after, rfl⟩ hle
    · exact iff_of_true ⟨_, last, rfl⟩ hle
    · rintro _ _ ⟨⟩
      exact ⟨hlength, last, rfl, hposition, hbytes⟩

theorem two_and_a_half_values_are_read_as_a_run :
    let b := Buffer.ofBytes [1, 2, 3, 4, 5]
    b.size ≤ Limits.maxAllocation ∧
      (∃ after last, readRun .u16 2 (some .big) b = .ok [0x0102, 0x0304] after ∧
        ReadOp.performAll (List.replicate 2 (.word .u16 (some .big))) b =
          .ok [⟨.word .u16 (some .big), (0x0102 : Word .u16)⟩,
            ⟨.word .u16 (some .big), (0x0304 : Word .u16)⟩] last ∧
        last.position = after.position) ∧
      ∃ after, readRun .u16 3 (some .big) b = .error (.outOfBounds 6 5 0) after ∧
        after.unread = b.unread := by
  intro b
  have hstored : b.size ≤ Limits.maxAllocation := by decide
  have helement : some ByteOrder.big = some ByteOrder.big ∨ Primitive.u16.width = 1 := Or.inl rfl
  obtain ⟨-, hruns, -⟩ := run_is_its_elements helement b (.writer {}) hstored
  have hvalues : Word.getAll .u16 .big [1, 2, 3, 4] = [0x0102, 0x0304] := by decide
  have hrun : readRun .u16 2 (some .big) b = .ok [0x0102, 0x0304] (b.advance 4) :=
    hvalues ▸ rfl
  obtain ⟨-, -, hread, -⟩ := hruns 2
  obtain ⟨-, last, helements, hposition, -⟩ := hread _ _ hrun
  obtain ⟨-, -, -, hkept, -⟩ := hruns 3
  obtain ⟨-, hunread, -⟩ := hkept _ _ rfl
  exact ⟨hstored, ⟨_, last, hrun, helements, hposition⟩, _, rfl, hunread⟩

end Buffer
end OctetStream
