import OctetStream.Proofs.Buffer.Extension
import OctetStream.Proofs.Slots

/-! Reads of two buffers with the same octets ahead. What a read answers, takes and counts is
settled by the octets it takes: neither those that were read before, nor their number, nor those
behind the extent of the read tell on it, but for the place that an error names. -/

namespace OctetStream

namespace Counters

theorem addRead_merge (n : Nat) (c d : Counters) :
    (c.merge d).addRead n = c.merge (d.addRead n) := by
  simp only [addRead, merge, Nat.add_assoc]

end Counters

namespace StreamError

def place? : StreamError → Option Nat
  | outOfBounds _ _ pos | invalidUtf8 pos => some pos
  | _ => none

inductive Moved (shift : Int) : StreamError → StreamError → Prop
  | outOfBounds {need left pos pos' : Nat} (h : (pos' : Int) = pos + shift) :
    Moved shift (.outOfBounds need left pos) (.outOfBounds need left pos')
  | invalidUtf8 {pos pos' : Nat} (h : (pos' : Int) = pos + shift) :
    Moved shift (.invalidUtf8 pos) (.invalidUtf8 pos')
  | nowhere {e : StreamError} (h : e.place? = none) : Moved shift e e

end StreamError

open Medium

section Filled

variable {σ α : Type} {dest : List α}

def filledBy (dest : List α) : Except StreamError (List α) → Filled α
  | .ok slots => ⟨none, slots⟩
  | .error e => ⟨some e, dest⟩

theorem eq_filledBy {read : σ → Filled α × σ} {s : σ}
    (h : (read s).1.failure ≠ none → (read s).1.slots = dest) :
    read s = (filledBy dest ((slotsOf read).settle s).1, ((slotsOf read).settle s).2) := by
  unfold Action.settle slotsOf
  rcases hread : read s with ⟨⟨failure, slots⟩, after⟩
  rw [hread] at h
  cases failure with
  | none => rfl
  | some e =>
    obtain rfl : slots = dest := h (Option.some_ne_none e)
    rfl

end Filled

namespace Request

abbrev Value : Request → Type
  | read op => op.Value
  | readInto _ => Bytes
  | fillRun t _ _ => List (Word t)
  | write _ => Unit

def action {σ : Type} [Medium σ] : (request : Request) → Action σ request.Value
  | read op => op.perform
  | readInto dest => slotsOf (Medium.readInto dest)
  | fillRun _ dest order? => slotsOf (Medium.fillRun dest order?)
  | write op => op.perform

def reply : (request : Request) → Except StreamError request.Value → request.Reply
  | read _, result | write _, result => result
  | readInto dest, result | fillRun _ dest _, result => filledBy dest result

theorem failure_reply (request : Request) (result : Except StreamError request.Value) :
    request.failure (request.reply result) = errorOf result := by
  cases request <;> cases result <;> rfl

theorem related_action {σ τ : Type} [Medium σ] [Medium τ] {C : Comparison σ τ} (h : C.Agrees)
    {request : Request} (hread : ∀ op, request ≠ .write op) :
    C.Related request.action request.action := by
  cases request with
  | read op => exact h.perform op
  | readInto dest => exact h.perform (.into dest)
  | fillRun t dest order? => exact h.perform (.fill t dest order?)
  | write op => exact absurd rfl (hread op)

theorem perform_on_buffer (request : Request) (b : Buffer) :
    request.perform b =
      (request.reply (request.action.settle b).1, (request.action.settle b).2) := by
  cases request with
  | read op => rfl
  | write op => rfl
  | readInto dest => exact eq_filledBy Buffer.slots_of_failed_readInto
  | fillRun t dest order? => exact eq_filledBy (slots_of_failed_fillRun dest order? b)

end Request

namespace Buffer

/-- The same reads have led from `b₀` to `b` and from `c₀` to `c`, and `tail` stands behind what
either has left. -/
structure Paced (tail : Bytes) (b₀ c₀ b c : Buffer) : Prop where
  order_eq : b.order = c.order
  unread_eq : c.unread = b.unread ++ tail
  moved : ∃ n, b.position = b₀.position + n ∧ c.position = c₀.position + n
  counted : ∃ change, b.counters = b₀.counters.merge change ∧ c.counters = c₀.counters.merge change

def locality (tail : Bytes) (b₀ c₀ : Buffer) : Comparison Buffer Buffer where
  states := Paced tail b₀ c₀
  failures e b f c := e.Moved (c₀.position - b₀.position) f ∧ Paced tail b₀ c₀ b c
  waives e := tail ≠ [] ∧ e.isOutOfBounds = true

namespace Paced

variable {tail : Bytes} {b₀ c₀ b c : Buffer}

theorem refl (horder : b.order = c.order) (hunread : c.unread = b.unread ++ tail) :
    Paced tail b c b c :=
  ⟨horder, hunread, ⟨0, rfl, rfl⟩, {}, rfl, rfl⟩

variable (h : Paced tail b₀ c₀ b c)
include h

theorem remaining_eq : c.remaining = b.remaining + tail.length := by
  show c.unread.length = b.unread.length + tail.length
  rw [h.unread_eq, List.length_append]

theorem remaining_le : b.remaining ≤ c.remaining :=
  Nat.le_trans (Nat.le_add_right ..) (Nat.le_of_eq h.remaining_eq.symm)

theorem position_eq : (c.position : Int) = b.position + (c₀.position - b₀.position) := by
  obtain ⟨n, hb, hc⟩ := h.moved
  omega

theorem advance {n : Nat} (hn : n ≤ b.remaining) :
    Paced tail b₀ c₀ (b.advance n) (c.advance n) where
  order_eq := h.order_eq
  unread_eq := by
    rw [unread_advance, unread_advance, h.unread_eq]
    exact List.drop_append_of_le_length hn
  moved := by
    obtain ⟨k, hb, hc⟩ := h.moved
    refine ⟨k + n, ?_, ?_⟩
    · rw [position_advance hn, hb, Nat.add_assoc]
    · rw [position_advance (Nat.le_trans hn h.remaining_le), hc, Nat.add_assoc]
  counted := by
    obtain ⟨change, hb, hc⟩ := h.counted
    refine ⟨change.addRead n, ?_, ?_⟩
    · exact (congrArg (Counters.addRead n) hb).trans (Counters.addRead_merge ..)
    · exact (congrArg (Counters.addRead n) hc).trans (Counters.addRead_merge ..)

theorem addReadFailure {b' c' : Buffer} (horder : b'.order = c'.order)
    (hb : b'.cursor = b.cursor) (hc : c'.cursor = c.cursor)
    (hcountb : b'.counters = b.counters.addReadFailure)
    (hcountc : c'.counters = c.counters.addReadFailure) : Paced tail b₀ c₀ b' c' where
  order_eq := horder
  unread_eq := by
    show c'.cursor.ahead = b'.cursor.ahead ++ tail
    rw [hb, hc]
    exact h.unread_eq
  moved := by
    show ∃ n, b'.cursor.position = _ ∧ c'.cursor.position = _
    rw [hb, hc]
    exact h.moved
  counted := by
    obtain ⟨change, hb, hc⟩ := h.counted
    rw [hcountb, hcountc, hb, hc]
    exact ⟨change.addReadFailure, rfl, rfl⟩

theorem demand (n : Nat) :
    (locality tail b₀ c₀).Results (OctetStream.demand receive n b)
      (OctetStream.demand receive n c) := by
  rcases Nat.lt_or_ge b.remaining n with hlt | hle
  · rw [demand_of_lt hlt]
    by_cases htail : tail = []
    · have hleft : c.remaining = b.remaining := by
        rw [h.remaining_eq, htail]
        rfl
      rw [demand_of_lt (hleft ▸ hlt), hleft]
      exact Or.inr ⟨.outOfBounds h.position_eq, h.addReadFailure h.order_eq rfl rfl rfl rfl⟩
    · have hwaived : (locality tail b₀ c₀).waives (.outOfBounds n b.remaining b.position) :=
        ⟨htail, rfl⟩
      exact Comparison.results_of_waives hwaived _
  · rw [demand_of_le hle, demand_of_le (Nat.le_trans hle h.remaining_le)]
    refine ⟨?_, h.advance hle⟩
    rw [h.unread_eq]
    exact (List.take_append_of_le_length hle).symm

end Paced

theorem locality_agrees (tail : Bytes) (b₀ c₀ : Buffer) (data data' : Bytes) :
    (holding (locality tail b₀ c₀) data data').Agrees := by
  apply holding_agrees
  · exact fun h => h.order_eq
  · exact fun h => h.remaining_le
  · exact fun n _ _ h => h.demand n
  · exact fun h hafter hb hc => ⟨hafter.1, h.addReadFailure hafter.2.order_eq hb hc rfl rfl⟩
  · exact fun h hafter => ⟨.invalidUtf8 h.position_eq, hafter⟩
  · exact fun _ _ h => ⟨.nowhere rfl, h⟩

section

variable {tail : Bytes} {b c : Buffer} {request : OctetStream.Request}

theorem results_action (h : Paced tail b c b c) (hread : ∀ op, request ≠ .write op) :
    (locality tail b c).Results (request.action b) (request.action c) := by
  have hagrees := locality_agrees tail b c b.data c.data
  exact results_of_holding
    (OctetStream.Request.related_action hagrees hread b c ⟨h, rfl, rfl⟩)

theorem perform_ok_of_paced (h : Paced tail b c b c) (hread : ∀ op, request ≠ .write op)
    (hok : request.failure (request.perform b).1 = none) :
    (request.perform c).1 = (request.perform b).1 ∧
      Paced tail b c (request.perform b).2 (request.perform c).2 := by
  have hresults := results_action h hread
  rw [Request.perform_on_buffer] at hok ⊢
  rw [Request.failure_reply] at hok
  rw [Request.perform_on_buffer]
  cases hb : request.action b with
  | ok v after =>
    obtain ⟨after', hc, hpaced⟩ := hresults.of_ok hb
    rw [Action.settle_of_ok hb, Action.settle_of_ok hc]
    exact ⟨rfl, hpaced⟩
  | error e after =>
    rw [Action.settle_of_error hb] at hok
    cases hok

theorem perform_error_of_paced (h : Paced tail b c b c) (hread : ∀ op, request ≠ .write op)
    {e : StreamError} (herror : request.failure (request.perform b).1 = some e)
    (hmet : e.isOutOfBounds = true → tail = []) :
    ∃ f, e.Moved (c.position - b.position) f ∧
      (request.perform b).1 = request.reply (.error e) ∧
      (request.perform c).1 = request.reply (.error f) ∧
      Paced tail b c (request.perform b).2 (request.perform c).2 := by
  have hresults := results_action h hread
  rw [Request.perform_on_buffer] at herror ⊢
  rw [Request.failure_reply] at herror
  rw [Request.perform_on_buffer]
  have hb := Action.eq_error_of_settle herror
  have hasked : ¬(locality tail b c).waives e := fun hwaived => hwaived.1 (hmet hwaived.2)
  obtain ⟨f, after, hc, hmoved, hpaced⟩ := hresults.of_error hasked hb
  rw [Action.settle_of_error hc, Action.settle_of_error hb]
  exact ⟨f, hmoved, rfl, rfl, hpaced⟩

end

/-- Reads see no more than the octets ahead. One that succeeds does so too where other octets were
read before and more stand behind, with the same reply, as many octets taken and the same tallies;
one that finds no text names the place where it is then. Where just the same octets are ahead, all
replies are the same but for such places. -/
theorem reads_are_local {b c : Buffer} {tail : Bytes} (horder : b.order = c.order)
    (hunread : c.unread = b.unread ++ tail) {request : OctetStream.Request}
    (hread : ∀ op, request ≠ .write op) :
    let shorter := request.perform b
    let longer := request.perform c
    let shift : Int := c.position - b.position
    (request.failure shorter.1 = none →
      longer.1 = shorter.1 ∧ Paced tail b c shorter.2 longer.2) ∧
    (∀ pos, request.failure shorter.1 = some (.invalidUtf8 pos) →
      ∃ pos' : Nat, (pos' : Int) = pos + shift ∧
        longer.1 = request.reply (.error (.invalidUtf8 pos')) ∧
        Paced tail b c shorter.2 longer.2) ∧
    (tail = [] → ∀ e, request.failure shorter.1 = some e →
      ∃ f, e.Moved shift f ∧ shorter.1 = request.reply (.error e) ∧
        longer.1 = request.reply (.error f) ∧ Paced tail b c shorter.2 longer.2) := by
  intro shorter longer shift
  have hstart : Paced tail b c b c := .refl horder hunread
  refine ⟨perform_ok_of_paced hstart hread, fun pos hinvalid => ?_, fun htail e herror => ?_⟩
  · obtain ⟨f, hmoved, -, hreply, hpaced⟩ := perform_error_of_paced hstart hread hinvalid nofun
    cases hmoved with
    | @invalidUtf8 _ pos' hpos => exact ⟨pos', hpos, hreply, hpaced⟩
    | nowhere hplace => cases hplace
  · exact perform_error_of_paced hstart hread herror fun _ => htail

theorem half_character_is_found_anywhere :
    let b := (ofBytes [7, 195, 0] .big).advance 1
    let c := (ofBytes [1, 2, 3, 195, 0, 9] .big).advance 3
    let text : OctetStream.Request := .read .terminated
    let word : OctetStream.Request := .read (.word .u16 none)
    text.failure (text.perform b).1 = some (.invalidUtf8 1) ∧
      (text.perform c).1 = text.reply (.error (.invalidUtf8 3)) ∧
      word.failure (word.perform b).1 = none ∧ (word.perform c).1 = (word.perform b).1 ∧
      (word.perform c).2.position = 5 := by
  intro b c text word
  have hinvalid : text.failure (text.perform b).1 = some (.invalidUtf8 1) := by decide +kernel
  have hok : word.failure (word.perform b).1 = none := by decide +kernel
  have horder : b.order = c.order := rfl
  have hunread : c.unread = b.unread ++ [9] := rfl
  have htext : ∀ op, text ≠ .write op := nofun
  have hword : ∀ op, word ≠ .write op := nofun
  obtain ⟨-, hmoved, -⟩ := reads_are_local horder hunread htext
  obtain ⟨hsame, -⟩ := reads_are_local horder hunread hword
  obtain ⟨pos, hpos, hreply, -⟩ := hmoved 1 hinvalid
  obtain rfl : pos = 3 := by
    have hshift : (c.position : Int) - b.position = 2 := rfl
    omega
  exact ⟨hinvalid, hreply, hok, (hsame hok).1, rfl⟩

end Buffer
end OctetStream
