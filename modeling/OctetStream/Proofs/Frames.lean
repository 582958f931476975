import OctetStream.Message
import OctetStream.Proofs.Buffer.Extension

/-! Values on their own. What a decoder accepts is a frame: octets that end before the value is
complete are found to be too few, and octets behind it are found to be too many. -/

namespace OctetStream

theorem Comparison.Agrees.run {σ τ α : Type} [Medium σ] [Medium τ] {C : Comparison σ τ}
    (h : C.Agrees) (p : Decoder α) : C.Related p.perform p.perform := by
  induction p with
  | done a => exact related_pure a
  | read op next ih => exact (h.perform op).bind ih

theorem StreamError.isEnd_of_isOutOfBounds {e : StreamError} (h : e.isOutOfBounds = true) :
    e.isEnd = true := by
  cases e with
  | outOfBounds need left pos => rfl
  | _ => cases h

namespace Codec

variable {α : Type} [Codec α] {data : Bytes} {v : α} {after : Buffer}

theorem decodeAll_of_exhausted {b : Buffer} (h : decodeStream b = .ok v after)
    (hdone : after.isExhausted = true) : decodeAll b = .ok v after := by
  have hget : (get : Action Buffer Buffer) after = .ok after after := rfl
  unfold decodeAll
  rw [Action.bind_of_ok h]
  refine (Action.bind_of_ok hget).trans ?_
  rw [if_pos hdone]
  rfl

theorem decodeAll_of_left {b : Buffer} (h : (decodeStream : Action Buffer α) b = .ok v after)
    (hleft : ¬after.isExhausted = true) :
    (decodeAll : Action Buffer α) b = .error (.trailingData after.remaining)
      (after.log (.leftAfterDecode after.remaining)) := by
  have hget : (get : Action Buffer Buffer) after = .ok after after := rfl
  unfold decodeAll
  rw [Action.bind_of_ok h]
  refine (Action.bind_of_ok hget).trans ?_
  rw [if_neg hleft]
  rfl

theorem decode_of_ok (h : decodeStream (Buffer.ofBytes data) = .ok v after) :
    (decode data : Logged α).result =
      if after.unread = [] then .ok v else .error (.trailingData after.unread.length) := by
  unfold decode
  by_cases hleft : after.unread = []
  · rw [decodeAll_of_exhausted h (List.isEmpty_iff.mpr hleft), if_pos hleft]
    rfl
  · rw [decodeAll_of_left h (mt List.isEmpty_iff.mp hleft), if_neg hleft]
    rfl

theorem decode_of_error {e : StreamError}
    (h : (decodeStream : Action Buffer α) (Buffer.ofBytes data) = .error e after) :
    (decode data : Logged α).result = .error e := by
  unfold decode decodeAll
  rw [Action.bind_of_error h]
  rfl

theorem decode_eq_ok (h : (decode data : Logged α).result = .ok v) :
    ∃ after, decodeStream (Buffer.ofBytes data) = .ok v after ∧ after.unread = [] := by
  cases hrun : (decodeStream : Action Buffer α) (Buffer.ofBytes data) with
  | error e after =>
    rw [decode_of_error hrun] at h
    cases h
  | ok w after =>
    rw [decode_of_ok hrun] at h
    split at h
    · cases h
      exact ⟨after, rfl, ‹_›⟩
    · cases h

theorem results_extended (data tail : Bytes) :
    (Buffer.extension tail).Results ((decodeStream : Action Buffer α) (Buffer.ofBytes data))
      (decodeStream (Buffer.ofBytes (data ++ tail))) :=
  Buffer.results_of_holding <|
    (Buffer.extension_agrees tail data (data ++ tail)).run decoder _ _ ⟨⟨rfl, rfl⟩, rfl, rfl⟩

theorem decode_append {p t : Bytes} (hp : (decode p : Logged α).result = .ok v) (ht : t ≠ []) :
    (decode (p ++ t) : Logged α).result = .error (.trailingData t.length) := by
  obtain ⟨after, hrun, hleft⟩ := decode_eq_ok hp
  obtain ⟨longer, hlonger, hextends⟩ := (results_extended p t).of_ok hrun
  have hunread : longer.unread = t := by
    rw [hextends.unread_eq, hleft, List.nil_append]
  rw [decode_of_ok hlonger, hunread, if_neg ht]

theorem decode_cut {q t : Bytes} (hp : (decode (q ++ t) : Logged α).result = .ok v) (ht : t ≠ []) :
    ∃ e, (decode q : Logged α).result = .error e ∧ e.isOutOfBounds = true := by
  obtain ⟨whole, hrun, hleft⟩ := decode_eq_ok hp
  have hresults := results_extended (α := α) q t
  rw [hrun] at hresults
  cases hcut : (decodeStream : Action Buffer α) (Buffer.ofBytes q) with
  | error e after =>
    rw [hcut] at hresults
    exact ⟨e, decode_of_error hcut, hresults⟩
  | ok w after =>
    -- The whole is read to its end, so the part that was cut off had to be read as well.
    rw [hcut] at hresults
    have hnil : after.unread ++ t = [] := hresults.2.unread_eq.symm.trans hleft
    exact absurd (List.append_eq_nil_iff.mp hnil).2 ht

/-- Octets that are accepted are neither cut nor followed by others: every proper prefix of them
lacks octets, every extension has octets left over, and so no octets that are accepted are a proper
prefix of others. -/
theorem accepted_octets_are_a_frame {p : Bytes} (hp : (decode p : Logged α).result = .ok v) :
    (∀ q, q <+: p → q ≠ p → ∃ e, (decode q : Logged α).result = .error e ∧
      e.isOutOfBounds = true ∧ e.isEnd = true) ∧
    (∀ t, t ≠ [] → (decode (p ++ t) : Logged α).result = .error (.trailingData t.length)) ∧
    ∀ p' v', (decode p' : Logged α).result = .ok v' → p <+: p' → p' = p := by
  refine ⟨?_, fun t ht => decode_append hp ht, ?_⟩
  · rintro q ⟨t, rfl⟩ hne
    have ht : t ≠ [] := by
      rintro rfl
      exact hne (List.append_nil q).symm
    obtain ⟨e, hcut, he⟩ := decode_cut hp ht
    exact ⟨e, hcut, he, StreamError.isEnd_of_isOutOfBounds he⟩
  · rintro p' v' hp' ⟨t, rfl⟩
    by_cases ht : t = []
    · rw [ht, List.append_nil]
    · rw [decode_append hp ht] at hp'
      cases hp'

theorem wow_octets_are_a_frame :
    let p : Bytes := [2, 0, 7, 9]
    (decode p : Logged Wow).result = .ok ⟨[7, 9]⟩ ∧
      (∃ e, (decode [2, 0, 7] : Logged Wow).result = .error e ∧ e.isOutOfBounds = true) ∧
      (decode [2, 0, 7, 9, 1] : Logged Wow).result = .error (.trailingData 1) := by
  intro p
  have hp : (decode p : Logged Wow).result = .ok ⟨[7, 9]⟩ := rfl
  obtain ⟨hcut, hlonger, -⟩ := accepted_octets_are_a_frame hp
  obtain ⟨e, he, hbounds, -⟩ := hcut [2, 0, 7] ⟨[9], rfl⟩ (by decide)
  exact ⟨hp, ⟨e, he, hbounds⟩, hlonger [1] (List.cons_ne_nil 1 [])⟩

end Codec
end OctetStream
