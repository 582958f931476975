import OctetStream.Proofs.Buffer.Extension
import OctetStream.Proofs.RoundTrip

/-! Fields that are read while their octets still come in. A reader that tries the next field after
each chunk, and waits for more when this fails, reads what it would have read from all the octets at
once, wherever they are cut. -/

namespace OctetStream

structure Assembly where
  buffer : Buffer
  pending : List ReadOp
  answers : List ReadOp.Answer := []
  failures : List StreamError := []

namespace Assembly

def attempt (buffer : Buffer) (answers : List ReadOp.Answer) (failures : List StreamError) :
    List ReadOp → Assembly
  | [] => ⟨buffer, [], answers, failures⟩
  | op :: ops =>
    match op.perform buffer with
    | .ok value buffer => attempt buffer (answers ++ [⟨op, value⟩]) failures ops
    | .error e buffer => ⟨buffer, op :: ops, answers, failures ++ [e]⟩

def start (buffer : Buffer) (ops : List ReadOp) : Assembly :=
  attempt buffer [] [] ops

def feed (a : Assembly) (chunk : Bytes) : Assembly :=
  let buffer := ((WriteOp.bytes chunk).perform.settle a.buffer).2
  attempt buffer a.answers a.failures a.pending

end Assembly

namespace Field

theorem perform_of_cut (f : Field) {b : Buffer} {tail : Bytes} (htail : tail ≠ [])
    (hcut : b.unread ++ tail = f.encoding b.order) :
    ∃ e after, f.read.perform b = .error e after ∧ e.isOutOfBounds = true := by
  let whole := { b with cursor := b.cursor.append tail }
  have hextends : Buffer.Extends tail b whole := ⟨rfl, rfl⟩
  have hunread : Readable.ahead whole = f.encoding (Medium.order whole) ++ [] := by
    rw [List.append_nil]
    exact hcut
  obtain ⟨done, hread, hpassed⟩ := Readable.yields_read f trivial hunread nofun
  have hdone : done.unread = [] := hpassed.ahead_append hunread
  have hresults := Buffer.perform_extends f.read hextends
  rw [hread] at hresults
  cases hb : f.read.perform b with
  | ok value after =>
    rw [hb] at hresults
    have hnil : after.unread ++ tail = [] := hresults.2.unread_eq.symm.trans hdone
    exact absurd (List.append_eq_nil_iff.mp hnil).2 htail
  | error e after =>
    rw [hb] at hresults
    exact ⟨e, after, rfl, hresults⟩

end Field

namespace Assembly

open OctetStream.Field

/-- The octets that came in are those of the fields that are done, then what is not read yet. -/
structure Sound (order : ByteOrder) (done rest : List Field) (fed : Bytes) (a : Assembly) :
    Prop where
  order_eq : a.buffer.order = order
  fed_eq : fed = encodeAll order done ++ a.buffer.unread
  answers_eq : a.answers = done.map answer
  pending_eq : a.pending = rest.map read
  failures : ∀ e ∈ a.failures, e.isOutOfBounds = true
  reads_eq : a.buffer.counters.reads = transfersAll done
  bytesRead_eq : a.buffer.counters.bytesRead = (encodeAll order done).length

def Waits (order : ByteOrder) (fs : List Field) (fed : Bytes) (a : Assembly) : Prop :=
  ∃ done rest, done ++ rest = fs ∧ Sound order done rest fed a ∧
    ∀ f ∈ rest.head?, ¬f.encoding order <+: a.buffer.unread

variable {order : ByteOrder} {fs done rest : List Field} {fed : Bytes}

theorem Sound.answered {b after : Buffer} {answers : List ReadOp.Answer}
    {failures : List StreamError} {f : Field} {more : Bytes}
    (h : Sound order done (f :: rest) fed ⟨b, f.read :: rest.map read, answers, failures⟩)
    (hmore : b.unread = f.encoding order ++ more)
    (hpassed : Medium.Passed Buffer.unread (fun _ => True) f.transfers (f.encoding order).length
      b after) :
    Sound order (done ++ [f]) rest fed
      ⟨after, rest.map read, answers ++ [f.answer], failures⟩ where
  order_eq := hpassed.order_eq.trans h.order_eq
  fed_eq := by
    have hleft : after.unread = more := hpassed.ahead_append hmore
    have hfed : fed = encodeAll order done ++ b.unread := h.fed_eq
    rw [encodeAll_concat, hleft, hfed, hmore, List.append_assoc]
  answers_eq := by
    have hanswers : answers = done.map answer := h.answers_eq
    rw [List.map_append, hanswers]
    rfl
  pending_eq := rfl
  failures := h.failures
  reads_eq := by
    have hreads : after.counters.reads = b.counters.reads + f.transfers :=
      congrArg Counters.reads hpassed.counters_eq
    rw [transfersAll_concat, hreads, h.reads_eq]
  bytesRead_eq := by
    have hbytes : after.counters.bytesRead = b.counters.bytesRead + (f.encoding order).length :=
      congrArg Counters.bytesRead hpassed.counters_eq
    rw [encodeAll_concat, List.length_append, hbytes, h.bytesRead_eq]

theorem Sound.refused {b after : Buffer} {answers : List ReadOp.Answer}
    {failures : List StreamError} {ops : List ReadOp} {e : StreamError}
    (h : Sound order done rest fed ⟨b, ops, answers, failures⟩) (hafter : Buffer.Alike after b)
    (he : e.isOutOfBounds = true) :
    Sound order done rest fed ⟨after, ops, answers, failures ++ [e]⟩ where
  order_eq := hafter.order_eq.trans h.order_eq
  fed_eq := by
    have hunread : after.unread = b.unread := congrArg Cursor.ahead hafter.cursor_eq
    rw [hunread]
    exact h.fed_eq
  answers_eq := h.answers_eq
  pending_eq := h.pending_eq
  failures := by
    intro f hf
    rcases List.mem_append.mp hf with hbefore | hlast
    · exact h.failures f hbefore
    · rw [List.mem_singleton.mp hlast]
      exact he
  reads_eq := by
    have hreads : after.counters.reads = b.counters.reads :=
      (congrArg Counters.reads hafter.counters_eq :)
    exact hreads.trans h.reads_eq
  bytesRead_eq := by
    have hbytes : after.counters.bytesRead = b.counters.bytesRead :=
      (congrArg Counters.bytesRead hafter.counters_eq :)
    exact hbytes.trans h.bytesRead_eq

theorem attempt_waits {b : Buffer} {answers : List ReadOp.Answer} {failures : List StreamError}
    (h : Sound order done rest fed ⟨b, rest.map read, answers, failures⟩)
    (hfed : fed <+: encodeAll order (done ++ rest)) :
    Waits order (done ++ rest) fed (attempt b answers failures (rest.map read)) := by
  induction rest generalizing done b answers with
  | nil => exact ⟨done, [], rfl, h, nofun⟩
  | cons f rest ih =>
    have horder : b.order = order := h.order_eq
    have hunread : b.unread <+: f.encoding order ++ encodeAll order rest := by
      rw [h.fed_eq, encodeAll_append] at hfed
      exact (List.prefix_append_right_inj _).mp hfed
    by_cases hwhole : f.encoding order <+: b.unread
    · -- The field is whole: it is read, and joins those that are done.
      obtain ⟨more, hmore⟩ := hwhole
      have hahead : Readable.ahead b = f.encoding (Medium.order b) ++ more := by
        rw [show Medium.order b = order from horder]
        exact hmore.symm
      obtain ⟨after, hread, hpassed⟩ := Readable.yields_read f trivial hahead nofun
      rw [show Medium.order b = order from horder] at hpassed
      have hnext := h.answered hmore.symm hpassed
      have hsplit : done ++ f :: rest = done ++ [f] ++ rest := List.append_cons ..
      rw [hsplit] at hfed ⊢
      rw [List.map_cons, attempt, hread]
      exact ih hnext hfed
    · -- The field is cut: a prefix of its octets is left, and not all of them.
      have hcut : b.unread <+: f.encoding order := by
        rcases List.prefix_or_prefix_of_prefix hunread (List.prefix_append _ _) with hcut | hall
        · exact hcut
        · exact absurd hall hwhole
      obtain ⟨tail, htail⟩ := hcut
      have hne : tail ≠ [] := by
        rintro rfl
        rw [List.append_nil] at htail
        exact hwhole (htail ▸ List.prefix_refl _)
      obtain ⟨e, after, hread, he⟩ := f.perform_of_cut hne (horder ▸ htail)
      have hafter := Buffer.alike_of_perform_error hread
      rw [List.map_cons, attempt, hread]
      refine ⟨done, f :: rest, rfl, h.refused hafter he, ?_⟩
      rintro g ⟨⟩
      have hsame : after.unread = b.unread := congrArg Cursor.ahead hafter.cursor_eq
      rwa [hsame]

theorem feed_waits {a : Assembly} {chunk : Bytes} (h : Waits order fs fed a)
    (hfed : fed ++ chunk <+: encodeAll order fs) :
    Waits order fs (fed ++ chunk) (a.feed chunk) := by
  obtain ⟨done, rest, rfl, hsound, -⟩ := h
  unfold feed
  rw [hsound.pending_eq]
  refine attempt_waits ⟨hsound.order_eq, ?_, hsound.answers_eq, rfl, hsound.failures,
    hsound.reads_eq, hsound.bytesRead_eq⟩ hfed
  show fed ++ chunk = encodeAll order done ++ (a.buffer.unread ++ chunk)
  rw [hsound.fed_eq, List.append_assoc]

theorem foldl_feed_waits {a : Assembly} (chunks : List Bytes) (h : Waits order fs fed a)
    (hfed : fed ++ chunks.flatten <+: encodeAll order fs) :
    Waits order fs (fed ++ chunks.flatten) (chunks.foldl feed a) := by
  induction chunks generalizing fed a with
  | nil =>
    rw [List.flatten_nil, List.append_nil]
    exact h
  | cons chunk chunks ih =>
    rw [List.flatten_cons, ← List.append_assoc] at hfed ⊢
    exact ih (feed_waits h ((List.prefix_append _ _).trans hfed)) hfed

theorem Waits.complete {a : Assembly} (h : Waits order fs (encodeAll order fs) a) :
    Sound order fs [] (encodeAll order fs) a := by
  obtain ⟨done, rest, rfl, hsound, hwaits⟩ := h
  have hunread : encodeAll order rest = a.buffer.unread := by
    have hfed := hsound.fed_eq
    rw [encodeAll_append] at hfed
    exact List.append_cancel_left hfed
  cases rest with
  | nil =>
    rw [List.append_nil] at hsound ⊢
    exact hsound
  | cons f rest =>
    -- All octets have come in, so the field that waits would have been read.
    have hwhole : f.encoding order <+: a.buffer.unread := hunread ▸ List.prefix_append _ _
    exact absurd hwhole (hwaits f rfl)

/-- Wherever the octets of the fields are cut into chunks, every attempt that fails lacks octets,
and after the last chunk all is read that a reader of the whole would have read, with the same
tallies. -/
theorem feed_chunks (order : ByteOrder) (capacity : Nat) (fs : List Field) (chunks : List Bytes)
    (hchunks : chunks.flatten = encodeAll order fs) :
    let a := chunks.foldl feed (start (.empty order capacity) (fs.map read))
    (∀ e ∈ a.failures, e.isOutOfBounds = true) ∧ a.answers = fs.map answer ∧ a.pending = [] ∧
      a.buffer.isExhausted = true ∧
      ∃ whole, ReadOp.performAll (fs.map read) (Buffer.ofBytes (encodeAll order fs) order) =
          .ok (fs.map answer) whole ∧
        a.buffer.counters.reads = whole.counters.reads ∧
        a.buffer.counters.bytesRead = whole.counters.bytesRead := by
  intro a
  -- Nothing has come in yet, so no field is done.
  have hempty : Sound order [] fs [] ⟨.empty order capacity, fs.map read, [], []⟩ :=
    ⟨rfl, rfl, rfl, rfl, nofun, rfl, rfl⟩
  have hstart : Waits order fs [] (start (.empty order capacity) (fs.map read)) :=
    attempt_waits hempty List.nil_prefix
  have hlast := foldl_feed_waits chunks hstart (hchunks ▸ List.prefix_refl _)
  rw [List.nil_append, hchunks] at hlast
  have hsound := hlast.complete
  have hleft : a.buffer.unread = [] := by
    have hfed := hsound.fed_eq
    exact List.append_right_eq_self.mp hfed.symm
  obtain ⟨whole, hread, -, -, hcounters⟩ :=
    read_whole fs (s := Buffer.ofBytes (encodeAll order fs) order) trivial rfl rfl nofun
  refine ⟨hsound.failures, hsound.answers_eq, hsound.pending_eq, List.isEmpty_iff.mpr hleft, whole,
    hread, ?_, ?_⟩
  · have hreads : whole.counters.reads = 0 + transfersAll fs :=
      congrArg Counters.reads hcounters
    rw [hreads, Nat.zero_add]
    exact hsound.reads_eq
  · have hbytes : whole.counters.bytesRead = 0 + (encodeAll order fs).length :=
      congrArg Counters.bytesRead hcounters
    rw [hbytes, Nat.zero_add]
    exact hsound.bytesRead_eq

theorem feed_cut_text :
    let fs : List Field := [.string .short none "é" (by decide) (by decide),
      .word .u16 (some .big) 258]
    let chunks : List Bytes := [[2], [], [0, 195], [169, 1], [2]]
    let a := chunks.foldl feed (start .empty (fs.map read))
    chunks.flatten = encodeAll .little fs ∧ a.answers = fs.map answer ∧
      a.failures = [.outOfBounds 2 0 0, .outOfBounds 2 1 0, .outOfBounds 2 1 0, .outOfBounds 2 1 2,
        .outOfBounds 2 1 4] ∧ a.buffer.isExhausted = true := by
  intro fs chunks a
  have hchunks : chunks.flatten = encodeAll .little fs := by decide
  obtain ⟨-, hanswers, -, hexhausted, -⟩ := feed_chunks .little 0 fs chunks hchunks
  have hfailures : a.failures = [.outOfBounds 2 0 0, .outOfBounds 2 1 0, .outOfBounds 2 1 0,
      .outOfBounds 2 1 2, .outOfBounds 2 1 4] := by decide
  exact ⟨hchunks, hanswers, hfailures, hexhausted⟩

end Assembly
end OctetStream
