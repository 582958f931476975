import OctetStream.Buffer
import OctetStream.Proofs.Framing

/-! A buffer is readable and writable in every state: what it holds behind its cursor comes, and
what is sent stands at its end. -/

namespace OctetStream.Buffer

open Medium

theorem passed_advance {n : Nat} {b : Buffer} (h : n ≤ b.remaining) :
    Passed unread (fun _ => True) 1 n b (b.advance n) where
  ready := trivial
  ahead_eq := unread_advance n b
  order_eq := rfl
  limit_eq := rfl
  offset_eq := position_advance h
  counters_eq := rfl

instance : Readable Buffer where
  ahead := unread
  Ready _ := True
  fetch_of_le {n b} _ h := ⟨b.advance n, demand_of_le h, passed_advance h⟩
  readBytes_of_le {n b} _ h _ := ⟨b.advance n, readBytes_of_le h, passed_advance h⟩
  atomically_of_ok h := Buffer.atomically_of_ok h
  length_ahead_le _ := Nat.le_refl _

instance : Writable Buffer where
  written := data
  Ready _ := True
  send_of_ready {b} _ octets :=
    ⟨_, rfl, trivial, Cursor.data_append octets b.cursor, rfl, rfl⟩

end OctetStream.Buffer
