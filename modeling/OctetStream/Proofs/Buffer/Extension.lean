import OctetStream.Proofs.Buffer.Rewind

/-! Octets that come later. A read that a buffer can answer is answered alike when more octets stand
at its end, and a read that fails does so only for the want of octets, or fails alike. -/

namespace OctetStream

def StreamError.isOutOfBounds : StreamError → Bool
  | outOfBounds .. => true
  | _ => false

namespace Buffer

open Medium

structure Extends (tail : Bytes) (b c : Buffer) : Prop where
  cursor_eq : c.cursor = b.cursor.append tail
  order_eq : c.order = b.order

/-- Nothing is asked of the longer buffer where the shorter one lacks octets. -/
def extension (tail : Bytes) : Comparison Buffer Buffer where
  states := Extends tail
  failures e b f c := e = f ∧ Extends tail b c
  waives e := e.isOutOfBounds = true

namespace Extends

variable {tail : Bytes} {b c : Buffer} (h : Extends tail b c)
include h

theorem unread_eq : c.unread = b.unread ++ tail :=
  congrArg Cursor.ahead h.cursor_eq

theorem position_eq : c.position = b.position :=
  (congrArg Cursor.position h.cursor_eq).trans rfl

theorem remaining_le : b.remaining ≤ c.remaining := by
  show b.unread.length ≤ c.unread.length
  rw [h.unread_eq, List.length_append]
  exact Nat.le_add_right ..

theorem advance {n : Nat} (hn : n ≤ b.remaining) : Extends tail (b.advance n) (c.advance n) where
  cursor_eq := by
    show c.cursor.advance n = _
    rw [h.cursor_eq]
    exact Cursor.advance_append hn tail
  order_eq := h.order_eq

theorem demand (n : Nat) :
    (extension tail).Results (OctetStream.demand receive n b) (OctetStream.demand receive n c) := by
  rcases Nat.lt_or_ge b.remaining n with hlt | hle
  · rw [demand_of_lt hlt]
    exact Comparison.results_of_waives rfl _
  · rw [demand_of_le hle, demand_of_le (Nat.le_trans hle h.remaining_le)]
    refine ⟨?_, h.advance hle⟩
    rw [h.unread_eq]
    exact (List.take_append_of_le_length hle).symm

end Extends

theorem extension_agrees (tail data data' : Bytes) :
    (holding (extension tail) data data').Agrees := by
  apply holding_agrees
  · exact fun h => h.order_eq.symm
  · exact fun h => h.remaining_le
  · exact fun n _ _ h => h.demand n
  · rintro e _ b c b' c' h ⟨rfl, hafter⟩ hb hc
    refine ⟨rfl, ?_, hafter.order_eq⟩
    rw [hb, hc]
    exact h.cursor_eq
  · exact fun h hafter => ⟨congrArg StreamError.invalidUtf8 h.position_eq.symm, hafter⟩
  · exact fun _ _ h => ⟨rfl, h⟩

theorem perform_extends (op : ReadOp) {tail : Bytes} {b c : Buffer} (h : Extends tail b c) :
    (extension tail).Results (op.perform b) (op.perform c) :=
  results_of_holding ((extension_agrees tail b.data c.data).perform op b c ⟨h, rfl, rfl⟩)

end Buffer
end OctetStream
