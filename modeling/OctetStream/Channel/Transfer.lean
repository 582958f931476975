import OctetStream.Channel.Endpoint
import OctetStream.StreamError

/-! Whole transfers over calls that may do a part. A call that was interrupted is made again; one
that transfers nothing ends the transfer, as does any other fault. What is delivered are the next
octets of the source, what is accepted is the front of the data, and a transfer needs at most one
call for each event of the script and two more. -/

namespace OctetStream

inductive Stop
  | dry
  | fault (fault : Fault)
  deriving DecidableEq, Repr

def Stop.sourceError (got want : Nat) : Stop → StreamError
  | .dry => .sourceExhausted got want
  | .fault f => .sourceFailure f.text

def Stop.sinkError (accepted offered : Nat) : Stop → StreamError
  | .dry => .sinkRefused accepted offered
  | .fault f => .sinkFailure f.text

namespace Source

structure Delivery where
  got : Bytes := []
  shortReads : Nat := 0
  stop : Option Stop := none
  deriving DecidableEq, Repr

def Delivery.after (chunk : Bytes) (short : Bool) (d : Delivery) : Delivery :=
  { d with got := chunk ++ d.got, shortReads := d.shortReads + short.toNat }

/-- Reads until `want` octets have come. Each call uses up an event of the script or, once there
is none, leaves less to be wanted. -/
def fill (want : Nat) (s : Source) : Delivery × Source :=
  if want = 0 then ({}, s)
  else
    match h : s.read want with
    | (.ok [], after) => ({ stop := some .dry }, after)
    | (.ok (c :: chunk), after) =>
      let rest := fill (want - (chunk.length + 1)) after
      (rest.1.after (c :: chunk) (chunk.length + 1 < want), rest.2)
    | (.error fault, after) =>
      if fault.isInterrupt then fill want after
      else ({ stop := some (.fault fault) }, after)
termination_by s.script.length + want
decreasing_by
  · have := length_script_read h
    have := (read_eq_ok h).1
    simp only [List.length_cons] at this
    omega
  · have := length_script_of_interrupt h (by assumption)
    omega

structure Delivers (before : Cursor) (want : Nat) (d : Delivery) (after : Cursor) : Prop where
  got_eq : d.got = before.ahead.take d.got.length
  length_le : d.got.length ≤ want
  stop_eq_none_iff : d.stop = none ↔ d.got.length = want
  after_eq : after = before.advance d.got.length

theorem fill_delivers (want : Nat) (s : Source) :
    Delivers s.cursor want (s.fill want).1 (s.fill want).2.cursor := by
  fun_induction fill want s with
  | case1 s => constructor <;> simp [Cursor.advance]
  | case2 want s hw after h =>
    have := (read_eq_ok h).2.2
    constructor <;> simp [this, Cursor.advance, Ne.symm hw]
  | case3 want s hw c chunk after h rest ih =>
    obtain ⟨hle, hgot, hcur⟩ := read_eq_ok h
    simp only [List.length_cons] at hle hgot hcur
    obtain ⟨h₁, h₂, h₃, h₄⟩ : Delivers after.cursor _ rest.1 rest.2.cursor := ih
    rw [hcur] at h₁ h₄
    constructor
    · simp only [Delivery.after, List.length_append, List.length_cons, List.take_add, ← hgot,
        ← Cursor.ahead_advance]
      rw [← h₁]
    · simp only [Delivery.after, List.length_append, List.length_cons]
      omega
    · simp only [Delivery.after, List.length_append, List.length_cons, h₃]
      omega
    · simp only [Delivery.after, List.length_append, List.length_cons, h₄,
        Cursor.advance_advance]
  | case4 want s hw fault after h hi ih =>
    rwa [read_eq_error h] at ih
  | case5 want s hw fault after h hi =>
    have := read_eq_error h
    constructor <;> simp [this, Cursor.advance, Ne.symm hw]

theorem calls_fill_of_exhausted {want : Nat} {s : Source} (hs : s.script = [])
    (hb : s.broken = none) (ha : s.cursor.ahead = []) : (s.fill want).2.calls ≤ s.calls + 1 := by
  unfold fill
  split
  · exact Nat.le_succ _
  · have hr := read_of_script_eq_nil want hs hb
    rw [ha, List.take_nil] at hr
    split <;> rename_i h <;> rw [hr] at h <;> cases h
    exact Nat.le_refl _

theorem calls_fill_of_script_eq_nil {want : Nat} {s after : Source} {c : UInt8} {chunk : Bytes}
    (hs : s.script = []) (h : s.read want = (.ok (c :: chunk), after)) :
    (after.fill (want - (chunk.length + 1))).2.calls ≤ after.calls + 1 := by
  have hb : s.broken = none := by
    cases hb : s.broken with
    | none => rfl
    | some text => simp [read, nextEvent, hs, hb] at h
  have hr := read_of_script_eq_nil want hs hb
  rw [h] at hr
  obtain ⟨hgot, hafter⟩ := Prod.mk.inj hr
  have hlength := congrArg List.length (Except.ok.inj hgot)
  simp only [List.length_cons, List.length_take] at hlength
  rcases Nat.lt_or_ge s.cursor.ahead.length want with hlt | hge
  · have hnil : after.cursor.ahead = [] := by
      rw [hafter]
      exact List.drop_eq_nil_iff.mpr (Nat.le_of_lt hlt)
    exact calls_fill_of_exhausted (by rw [hafter, hs]) (by rw [hafter, hb]) hnil
  · have hnone : want - (chunk.length + 1) = 0 := by omega
    rw [hnone, fill, if_pos rfl]
    exact Nat.le_succ _

theorem calls_fill_le (want : Nat) (s : Source) :
    (s.fill want).2.calls ≤ s.calls + s.script.length + 2 := by
  fun_induction fill want s with
  | case1 s =>
    show s.calls ≤ _
    omega
  | case2 want s hw after h =>
    have : after.calls = s.calls + 1 := by rw [← calls_read want s, h]
    show after.calls ≤ _
    omega
  | case3 want s hw c chunk after h rest ih =>
    have ih : rest.2.calls ≤ _ := ih
    have hc : after.calls = s.calls + 1 := by rw [← calls_read want s, h]
    have hl := length_script_read h
    show rest.2.calls ≤ _
    cases hs : s.script with
    | nil =>
      have hrest : rest.2.calls ≤ after.calls + 1 := calls_fill_of_script_eq_nil hs h
      omega
    | cons event script =>
      simp only [hs, List.length_cons] at hl ⊢
      omega
  | case4 want s hw fault after h hi ih =>
    have hc : after.calls = s.calls + 1 := by rw [← calls_read want s, h]
    have := length_script_of_interrupt h hi
    omega
  | case5 want s hw fault after h hi =>
    have : after.calls = s.calls + 1 := by rw [← calls_read want s, h]
    show after.calls ≤ _
    omega

end Source

namespace Sink

/-- Writes until all of `data` is accepted; answers how many octets were. Each call uses up an
event of the script or, once there is none, accepts all that is left. -/
def drain (data : Bytes) (s : Sink) : (Nat × Option Stop) × Sink :=
  match data with
  | [] => ((0, none), s)
  | c :: rest =>
    match h : s.write (c :: rest) with
    | (.ok 0, after) => ((0, some .dry), after)
    | (.ok (n + 1), after) =>
      let more := drain (rest.drop n) after
      ((n + 1 + more.1.1, more.1.2), more.2)
    | (.error fault, after) =>
      if fault.isInterrupt then drain (c :: rest) after
      else ((0, some (.fault fault)), after)
termination_by s.script.length + data.length
decreasing_by
  · have := length_script_write h
    simp only [List.length_drop, List.length_cons]
    omega
  · have := length_script_of_error h
    omega

structure Accepts (before : Bytes) (data : Bytes) (r : Nat × Option Stop) (after : Bytes) :
    Prop where
  le_length : r.1 ≤ data.length
  stop_eq_none_iff : r.2 = none ↔ r.1 = data.length
  after_eq : after = before ++ data.take r.1

theorem drain_accepts (data : Bytes) (s : Sink) :
    Accepts s.contents data (s.drain data).1 (s.drain data).2.contents := by
  fun_induction drain data s with
  | case1 s => constructor <;> simp
  | case2 s c rest after h =>
    have := (write_eq_ok h).2
    constructor <;> simp [this]
  | case3 s c rest n after h more ih =>
    obtain ⟨hle, hcon⟩ := write_eq_ok h
    obtain ⟨h₁, h₂, h₃⟩ : Accepts after.contents _ more.1 more.2.contents := ih
    simp only [List.length_drop, List.length_cons] at h₁ h₂ hle
    constructor
    · simp only [List.length_cons]
      omega
    · simp only [List.length_cons, h₂]
      omega
    · simp only [h₃, hcon, List.append_assoc]
      exact congrArg (s.contents ++ ·) (List.take_add (l := c :: rest)).symm
  | case4 s c rest fault after h hi ih =>
    rwa [write_eq_error h] at ih
  | case5 s c rest fault after h hi =>
    have := write_eq_error h
    constructor <;> simp [this]

theorem calls_drain_le (data : Bytes) (s : Sink) :
    (s.drain data).2.calls ≤ s.calls + s.script.length + 1 := by
  fun_induction drain data s with
  | case1 s =>
    show s.calls ≤ _
    omega
  | case2 s c rest after h =>
    have : after.calls = s.calls + 1 := by rw [← calls_write (c :: rest) s, h]
    show after.calls ≤ _
    omega
  | case3 s c rest n after h more ih =>
    have ih : more.2.calls ≤ _ := ih
    have hc : after.calls = s.calls + 1 := by rw [← calls_write (c :: rest) s, h]
    have hl := length_script_write h
    show more.2.calls ≤ _
    cases hs : s.script with
    | nil =>
      simp only [write, hs] at h
      have hn : rest.length = n := Nat.succ.inj (Except.ok.inj (Prod.mk.inj h).1)
      have hnil : rest.drop n = [] := List.drop_eq_nil_iff.mpr (Nat.le_of_eq hn)
      have : more.2 = after := by
        simp only [more, hnil]
        rw [drain]
      rw [this]
      omega
    | cons event script =>
      simp only [hs, List.length_cons] at hl ⊢
      omega
  | case4 s c rest fault after h hi ih =>
    have hc : after.calls = s.calls + 1 := by rw [← calls_write (c :: rest) s, h]
    have := length_script_of_error h
    omega
  | case5 s c rest fault after h hi =>
    have : after.calls = s.calls + 1 := by rw [← calls_write (c :: rest) s, h]
    show after.calls ≤ _
    omega

end Sink
end OctetStream
